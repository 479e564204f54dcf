import ChangeWatch.Value.Basic
import ChangeWatch.Json.Basic

/-!
Values from and to JSON documents. The two directions undo each other on plain data; functions and
the floats that JSON lacks become null, and objects become what they show of their fields.
-/
namespace ChangeWatch.Value

def ofNumber : Json.Number → Value
  | .natural n => ofNat n.toNat
  | .negative n => int n
  | .real x => float x

mutual
/-- The value of a document, made at the given place. -/
def ofJson (place : Place) : Json → Value
  | .null => null
  | .bool b => bool b
  | .number n => ofNumber n
  | .string s => str s
  | .array items => list place (ofItems place 0 items)
  | .object fields => map place (Entries.ofList (ofFields place 0 fields))

def ofItems (place : Place) (index : Nat) : List Json → List Value
  | [] => []
  | item :: items => ofJson (.part index place) item :: ofItems place (index + 1) items

def ofFields (place : Place) (index : Nat) : List (String × Json) → List (String × Value)
  | [] => []
  | (name, value) :: fields =>
    (name, ofJson (.part index place) value) :: ofFields place (index + 1) fields
end

mutual
/-- The document of a value, given the fields that each object shows. -/
def toJsonWith (expand : ObjectRef → Json) : Value → Json
  | null => .null
  | bool b => .bool b
  | int n => .ofInt64 n
  | float x => .ofFloat x
  | str s => .string s
  | list _ items => .array (itemsToJson expand items)
  | map _ entries => .object (entriesToJson expand entries)
  | object ref => expand ref
  | function _ => .null

def itemsToJson (expand : ObjectRef → Json) : List Value → List Json
  | [] => []
  | item :: items => toJsonWith expand item :: itemsToJson expand items

def entriesToJson (expand : ObjectRef → Json) : List (String × Value) → List (String × Json)
  | [] => []
  | (name, value) :: entries => (name, toJsonWith expand value) :: entriesToJson expand entries
end

/-- The document of a value whose objects show their fields, which may hold further objects down to
the given depth. -/
def toJson (fields : ObjectRef → List (String × Value)) : Nat → Value → Json
  | 0, value => toJsonWith (fun _ => .null) value
  | depth + 1, value =>
    let expand ref := .object ((fields ref).map fun (name, field) => (name, toJson fields depth field))
    toJsonWith expand value

end ChangeWatch.Value
