import ChangeWatch.Entries
import ChangeWatch.Number.Parts
import ChangeWatch.Number.Word

/-!
The values that expressions compute with. Lists and maps carry the place where they were made, so
that a container can be recognised as itself; objects and functions belong to the host and are known
by their handles.
-/
namespace ChangeWatch

/-- Where a container was made: by the host, by a detector, or as a part of something that has a
place itself. Different containers are made at different places. -/
inductive Place where
  | host (n : Nat)
  | detector (n : Nat)
  | part (index : Nat) (whole : Place)
deriving DecidableEq, Repr, Inhabited

/-- A host object. Its type name never changes. -/
structure ObjectRef where
  id : Nat
  typeName : String
deriving DecidableEq, Repr

/-- A host function. -/
structure FunctionRef where
  id : Nat
deriving DecidableEq, Repr

inductive Value where
  | null
  | bool (b : Bool)
  | int (n : Int64)
  | float (x : Float)
  | str (s : String)
  | list (place : Place) (items : List Value)
  | map (place : Place) (entries : List (String × Value))
  | object (ref : ObjectRef)
  | function (ref : FunctionRef)
deriving Inhabited

namespace Value

inductive Kind where
  | null | bool | int | float | string | list | map | object | function
deriving DecidableEq, Repr

def Kind.name : Kind → String
  | .null => "null"
  | .bool => "bool"
  | .int => "int"
  | .float => "float"
  | .string => "string"
  | .list => "list"
  | .map => "map"
  | .object => "object"
  | .function => "function"

def kind : Value → Kind
  | null => .null
  | bool _ => .bool
  | int _ => .int
  | float _ => .float
  | str _ => .string
  | list _ _ => .list
  | map _ _ => .map
  | object _ => .object
  | function _ => .function

def isNull : Value → Bool
  | null => true
  | _ => false

def isNumber : Value → Bool
  | int _ | float _ => true
  | _ => false

/-- What counts as true in conditions: everything but null, false, the zeros, NaN and the empty
string. -/
def truthy : Value → Bool
  | null => false
  | bool b => b
  | int n => n != 0
  | float x => x != 0.0 && !x.isNaN
  | str s => !s.isEmpty
  | list _ _ | map _ _ | object _ | function _ => true

def asFloat? : Value → Option Float
  | int n => some (floatOfInt n.toInt)
  | float x => some x
  | _ => none

def asString? : Value → Option String
  | str s => some s
  | _ => none

def asList? : Value → Option (List Value)
  | list _ items => some items
  | _ => none

def asMap? : Value → Option (List (String × Value))
  | map _ entries => some entries
  | _ => none

/-- A natural number is an integer unless it is too large for one. -/
@[irreducible] def ofNat (n : Nat) : Value := ((int64? n).map int).getD (float (floatOfInt n))

end Value
end ChangeWatch
