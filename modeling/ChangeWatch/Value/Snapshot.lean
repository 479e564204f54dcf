import ChangeWatch.Value.Basic
import ChangeWatch.Number.Layout
import ChangeWatch.Text.Quoted

/-!
A value as it is seen at one moment: what its objects show of themselves is copied out, and
identities are left behind.
-/
namespace ChangeWatch

inductive Snapshot where
  | null
  | bool (b : Bool)
  | int (n : Int64)
  | float (x : Float)
  | str (s : String)
  | list (items : List Snapshot)
  | map (entries : List (String × Snapshot))
  | object (typeName : String) (fields : List (String × Snapshot))
  | function
deriving Inhabited

namespace Value

mutual
def snapshotWith (expand : ObjectRef → Snapshot) : Value → Snapshot
  | null => .null
  | bool b => .bool b
  | int n => .int n
  | float x => .float x
  | str s => .str s
  | list _ items => .list (snapshotItems expand items)
  | map _ entries => .map (snapshotEntries expand entries)
  | object ref => expand ref
  | function _ => .function

def snapshotItems (expand : ObjectRef → Snapshot) : List Value → List Snapshot
  | [] => []
  | item :: items => snapshotWith expand item :: snapshotItems expand items

def snapshotEntries (expand : ObjectRef → Snapshot) :
    List (String × Value) → List (String × Snapshot)
  | [] => []
  | (name, value) :: entries =>
    (name, snapshotWith expand value) :: snapshotEntries expand entries
end

/-- A value whose objects show their fields, which may hold further objects down to the given
depth. -/
def snapshot (fields : ObjectRef → List (String × Value)) : Nat → Value → Snapshot
  | 0, value => snapshotWith (fun ref => .object ref.typeName []) value
  | depth + 1, value =>
    snapshotWith (fun ref => .object ref.typeName
      ((fields ref).map fun (name, field) => (name, snapshot fields depth field))) value

end Value

namespace Snapshot

def debugFloat (x : Float) : String :=
  if x.isNaN then "NaN"
  else if x.isInf then (if 0.0 < x then "inf" else "-inf")
  else Layout.literal.render x

mutual
/-- The value as it is shown to a developer: the constructor of every part, and texts in quotes. -/
def debug : Snapshot → String
  | null => "Null"
  | bool b => "Bool(" ++ (if b then "true" else "false") ++ ")"
  | int n => "Int(" ++ toString n.toInt ++ ")"
  | float x => "Float(" ++ debugFloat x ++ ")"
  | str s => "Str(" ++ Text.quote s ++ ")"
  | list items => "List([" ++ ", ".intercalate (debugItems items) ++ "])"
  | map entries => "Map(\x7b" ++ ", ".intercalate (debugEntries entries) ++ "\x7d)"
  | object typeName fields =>
    "Object(Record \x7b type_name: " ++ Text.quote typeName ++
      ", fields: [" ++ ", ".intercalate (debugFields fields) ++ "] \x7d)"
  | function => "Function(Function(..))"

def debugItems : List Snapshot → List String
  | [] => []
  | item :: items => debug item :: debugItems items

def debugEntries : List (String × Snapshot) → List String
  | [] => []
  | (name, value) :: entries => (Text.quote name ++ ": " ++ debug value) :: debugEntries entries

def debugFields : List (String × Snapshot) → List String
  | [] => []
  | (name, value) :: fields =>
    ("(" ++ Text.quote name ++ ", " ++ debug value ++ ")") :: debugFields fields
end

end Snapshot
end ChangeWatch
