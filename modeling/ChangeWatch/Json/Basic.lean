import ChangeWatch.Entries

/-!
JSON documents. Whole numbers within 64 bits are kept apart from floats, so that an integer comes
back as the integer it was.
-/
namespace ChangeWatch

namespace Json

/-- A whole number from zero up, a whole number below zero, or a finite float. -/
inductive Number where
  | natural (n : UInt64)
  | negative (n : Int64)
  | real (x : Float)
deriving DecidableEq

end Json

inductive Json where
  | null
  | bool (b : Bool)
  | number (n : Json.Number)
  | string (s : String)
  | array (items : List Json)
  | object (fields : List (String × Json))
deriving Inhabited

namespace Json

/-- The number for a signed 64-bit integer. -/
def ofInt64 (n : Int64) : Json :=
  if 0 ≤ n then .number (.natural n.toInt.toNat.toUInt64) else .number (.negative n)

def ofNat (n : Nat) : Json := .number (.natural n.toUInt64)

/-- A finite float as a number; the others have no JSON form. -/
def ofFloat (x : Float) : Json := if x.isFinite then .number (.real x) else .null

/-- The field of an object with this name. -/
def field? (json : Json) (name : String) : Option Json :=
  match json with
  | .object fields => Entries.get? fields name
  | _ => none

end Json
end ChangeWatch
