import ChangeWatch.Expr.Parser

/-!
Text with expressions between double braces. The first closing pair behind an opening pair ends the
expression, whatever stands between them.
-/
namespace ChangeWatch

namespace Interpolation

/-- Splits a text at the first place where a character stands twice. -/
def splitPair (brace : Char) : List Char → Option (List Char × List Char)
  | [] => none
  | c :: rest =>
    if c = brace ∧ rest.head? = some brace then some ([], rest.tail)
    else (splitPair brace rest).map fun (before, after) => (c :: before, after)

/-- Strings and expressions in turn, starting and ending with a string. -/
structure Pieces where
  strings : List String
  expressions : List Expr
  slots : Nat

/-- Parses a text whose first byte has the given offset. Every step takes four braces at least. -/
def pieces : Nat → Nat → List Char → Nat → Except Fault Pieces
  | 0, _, text, slots => .ok { strings := [String.ofList text], expressions := [], slots }
  | steps + 1, offset, text, slots =>
    match splitPair '\x7b' text with
    | none => .ok { strings := [String.ofList text], expressions := [], slots }
    | some (string, after) =>
      let opening := offset + Lexer.byteSize string
      match splitPair '\x7d' after with
      | none => .error (.unterminated opening)
      | some (body, rest) => do
        let (e, slots) ← parseSegment (opening + 2) body slots
        let others ← pieces steps (opening + 4 + Lexer.byteSize body) rest slots
        return { others with
          strings := String.ofList string :: others.strings
          expressions := e :: others.expressions }

end Interpolation

/-- How a text is to be read: as one expression, or as text around expressions. -/
inductive Reading where
  | binding
  | interpolation
deriving DecidableEq, Repr

def parseBinding (text : String) : Except Fault (Expr × Nat) := parseSegment 0 text.toList 0

def parseInterpolation (text : String) : Except Fault (Expr × Nat) := do
  let pieces ← Interpolation.pieces text.length 0 text.toList 0
  return (.interpolation pieces.strings pieces.expressions, pieces.slots)

/-- Parses the text that stands at a location. -/
def parse (reading : Reading) (text location : String) : Except ParseError Source :=
  let parsed := match reading with
    | .binding => parseBinding text
    | .interpolation => parseInterpolation text
  match parsed with
  | .ok (expr, slots) => .ok { expr, text, location, slots }
  | .error fault => .error { fault, input := text, location }

end ChangeWatch
