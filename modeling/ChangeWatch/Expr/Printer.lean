import ChangeWatch.Expr.Tree
import ChangeWatch.Value.Display
import ChangeWatch.Text.Quoted

/-!
The canonical text of an expression. Operators, conditionals and pipes stand in parentheses, so the
text shows the tree without any table of precedences.
-/
namespace ChangeWatch

def isNameStart (c : Char) : Bool := c.isAlpha || c == '_' || c == '$'

def isNamePart (c : Char) : Bool := c.isAlphanum || c == '_' || c == '$'

/-- Texts with the shape of a name; words with a meaning of their own have it too. -/
def isName (s : String) : Bool :=
  match s.toList with
  | [] => false
  | c :: rest => isNameStart c && rest.all isNamePart

namespace Value

/-- A value as a literal: strings in quotes, finite floats with a point or an exponent. -/
def renderLiteral : Value → String
  | str s => Text.quote s
  | float x => if x.isFinite then Layout.literal.render x else displayFloat x
  | value => value.display

end Value

namespace Expr

/-- A key of a map literal; only texts that are no names need quotes. -/
def renderKey (key : String) : String := if isName key then key else Text.quote key

/-- The strings of an interpolation with the texts of its expressions between them. Expressions
without a string in front of them have no text. -/
def weave : List String → List String → String
  | [], _ => ""
  | text :: strings, [] => text ++ weave strings []
  | text :: strings, part :: parts => text ++ part ++ weave strings parts

mutual
def render : Expr → String
  | implicit => ""
  | literal value => value.renderLiteral
  | property receiver name =>
    if receiver.isImplicit then name else receiver.render ++ "." ++ name
  | keyed receiver key => receiver.render ++ "[" ++ key.render ++ "]"
  | method receiver name args =>
    (if receiver.isImplicit then name else receiver.render ++ "." ++ name) ++
      "(" ++ ", ".intercalate (renderAll args) ++ ")"
  | apply target args => target.render ++ "(" ++ ", ".intercalate (renderAll args) ++ ")"
  | unary op operand => "(" ++ op.symbol ++ operand.render ++ ")"
  | binary op left right =>
    "(" ++ left.render ++ " " ++ op.symbol ++ " " ++ right.render ++ ")"
  | conditional condition yes no =>
    "(" ++ condition.render ++ " ? " ++ yes.render ++ " : " ++ no.render ++ ")"
  | array items => "[" ++ ", ".intercalate (renderAll items) ++ "]"
  | map entries => "\x7b" ++ ", ".intercalate (renderEntries entries) ++ "\x7d"
  | pipe exp name args _ =>
    "(" ++ exp.render ++ " | " ++ name ++ String.join ((renderAll args).map (":" ++ ·)) ++ ")"
  | interpolation strings expressions =>
    weave strings ((renderAll expressions).map fun text => "\x7b\x7b" ++ text ++ "\x7d\x7d")

def renderAll : List Expr → List String
  | [] => []
  | e :: es => e.render :: renderAll es

def renderEntries : List (String × Expr) → List String
  | [] => []
  | (key, e) :: entries => (renderKey key ++ ": " ++ e.render) :: renderEntries entries
end

end Expr

/-- A parsed expression with the text it was parsed from, the place that text stands in, and the
number of pipe slots it needs. -/
structure Source where
  expr : Expr
  text : String
  location : String
  slots : Nat

namespace Source

def canonical (source : Source) : String := source.expr.render

def describe (source : Source) : String := source.text ++ " in " ++ source.location

end Source
end ChangeWatch
