import ChangeWatch.Json.Basic
import ChangeWatch.Number.Numeral

/-!
A JSON document as it is written: numbers as numerals, fields in order of writing, and texts that may
hold half of a surrogate pair. What a reader skips need not denote anything; what it uses does, and
then containers may be nested 127 deep at most.
-/
namespace ChangeWatch.Json

/-- A document before its numbers and texts are given a meaning. A text is missing when it holds half
of a surrogate pair. -/
inductive Draft where
  | null
  | bool (b : Bool)
  | number (n : Numeral)
  | string (s : Option String)
  | array (items : List Draft)
  | object (fields : List (Option String × Draft))
deriving Inhabited

/-- The meaning of a numeral: an integer where it is written as one and fits 64 bits, else a float.
Minus zero is a float. -/
def Number.ofNumeral? (n : Numeral) : Option Number :=
  let magnitude := digitsValue n.whole
  if n.fraction.isNone && n.exponent.isNone && decide (magnitude < UInt64.size) then
    if !n.negative then some (.natural magnitude.toUInt64)
    else if magnitude = 0 || decide (Nat.pow 2 63 < magnitude) then
      some (.real (-magnitude.toUInt64.toFloat))
    else some (.negative (Int64.ofInt (-magnitude)))
  else n.scaled?.map .real

namespace Draft

/-- How deep containers may be nested in a document that is used. -/
def nesting : Nat := 127

mutual
/-- The document that a draft denotes, with containers at most `depth` deep. Of fields with one name
the last counts, and fields are ordered by name. -/
def toJson? : Nat → Draft → Option Json
  | _, .null => some .null
  | _, .bool b => some (.bool b)
  | _, .number n => (Number.ofNumeral? n).map .number
  | _, .string s => s.map .string
  | 0, .array _ => none
  | depth + 1, .array items => (itemsToJson? depth items).map .array
  | 0, .object _ => none
  | depth + 1, .object fields =>
    (fieldsToJson? depth fields).map fun fields => .object (Entries.ofList fields)

def itemsToJson? : Nat → List Draft → Option (List Json)
  | _, [] => some []
  | depth, item :: items => do
    let first ← toJson? depth item
    let others ← itemsToJson? depth items
    return first :: others

def fieldsToJson? : Nat → List (Option String × Draft) → Option (List (String × Json))
  | _, [] => some []
  | depth, (name, value) :: fields => do
    let name ← name
    let value ← toJson? depth value
    let others ← fieldsToJson? depth fields
    return (name, value) :: others
end

end Draft
end ChangeWatch.Json
