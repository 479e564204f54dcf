import ChangeWatch.Value.Display
import ChangeWatch.Text.Quoted

/-!
The tokens of binding expressions.
-/
namespace ChangeWatch

/-- Operators and punctuation. -/
inductive Symbol where
  | strictEqual | strictNotEqual | equal | notEqual | lessEqual | greaterEqual | less | greater
  | and | or | bang | plus | minus | star | slash | percent
  | question | colon | dot | comma | bar
  | leftParen | rightParen | leftBracket | rightBracket | leftBrace | rightBrace
deriving DecidableEq, Repr

namespace Symbol

def spelling : Symbol → String
  | strictEqual => "==="
  | strictNotEqual => "!=="
  | equal => "=="
  | notEqual => "!="
  | lessEqual => "<="
  | greaterEqual => ">="
  | less => "<"
  | greater => ">"
  | and => "&&"
  | or => "||"
  | bang => "!"
  | plus => "+"
  | minus => "-"
  | star => "*"
  | slash => "/"
  | percent => "%"
  | question => "?"
  | colon => ":"
  | dot => "."
  | comma => ","
  | bar => "|"
  | leftParen => "("
  | rightParen => ")"
  | leftBracket => "["
  | rightBracket => "]"
  | leftBrace => "\x7b"
  | rightBrace => "\x7d"

end Symbol

/-- Words with a meaning of their own. -/
inductive Keyword where
  | true | false | null | undefined
deriving DecidableEq, Repr

def Keyword.spelling : Keyword → String
  | .true => "true"
  | .false => "false"
  | .null => "null"
  | .undefined => "undefined"

inductive Token where
  | keyword (word : Keyword)
  | int (n : Int64)
  | float (x : Float)
  | str (s : String)
  | ident (name : String)
  | symbol (symbol : Symbol)
deriving DecidableEq

/-- The text of a token in messages. -/
def Token.display : Token → String
  | .keyword word => word.spelling
  | .int n => toString n.toInt
  | .float x => if x.isInf then "inf" else Layout.plain.render x
  | .str s => Text.quote s
  | .ident s => s
  | .symbol s => s.spelling

/-- A token with the byte offsets of its first byte and of the first byte behind it. -/
structure Spanned where
  token : Token
  start : Nat
  stop : Nat
deriving DecidableEq

end ChangeWatch
