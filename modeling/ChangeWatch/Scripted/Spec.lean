import ChangeWatch.Scripted.World
import ChangeWatch.Expr.Locals

/-!
Descriptions of values. Building one makes its containers, objects and functions, from left to right
and the inner ones first.
-/
namespace ChangeWatch.Scripted

inductive Spec where
  | null
  | bool (b : Bool)
  | int (n : Int64)
  | float (x : Float)
  | str (s : String)
  | list (items : List Spec)
  | map (entries : List (String × Spec))
  /-- A document, whose objects become maps. -/
  | json (document : Json)
  /-- A record, which may be remembered by a name. -/
  | record (typeName : String) (fields : List (String × Spec)) (name : Option String)
  | sealed (typeName : String) (fields : List (String × Spec))
  /-- A value that is remembered by a name. -/
  | named (name : String) (value : Spec)
  /-- A remembered value. -/
  | ref (name : String)
  | const (value : Spec)
  | thunk (value : Spec)
  | trace (label : String) (value : Spec)
  /-- Any other function. -/
  | function (behaviour : Behaviour)
deriving Inhabited

namespace Spec

/-- Remembers a value. -/
def remember (name : String) (value : Value) : StateM World Unit :=
  modify fun world => { world with values := Entries.insert name value world.values }

mutual
def build : Spec → StateM World Value
  | null => return .null
  | bool b => return .bool b
  | int n => return .int n
  | float x => return .float x
  | str s => return .str s
  | list items => do
    let items ← buildAll items
    return .list (← World.place) items
  | map entries => do
    let entries ← buildEntries entries
    return .map (← World.place) (Entries.ofList entries)
  | json document => return .ofJson (← World.place) document
  | record typeName fields name => do
    let fields ← buildEntries fields
    let ref ← World.addThing { typeName, fields := Entries.ofList fields } false
    match name with
    | none => return .object ref
    | some name =>
      modify fun world => { world with records := Entries.insert name ref world.records }
      remember name (.object ref)
      return .object ref
  | sealed typeName fields => do
    let fields ← buildEntries fields
    return .object (← World.addThing { typeName, fields := Entries.ofList fields } true)
  | named name value => do
    let value ← build value
    remember name value
    return value
  | ref name => return (Entries.get? (← get).values name).getD .null
  | const value => do
    let value ← build value
    return .function (← World.addFunction (.const value))
  | thunk value => do
    let value ← build value
    return .function (← World.addFunction (.thunk value))
  | trace label value => do
    let value ← build value
    return .function (← World.addFunction (.trace label value))
  | function behaviour => return .function (← World.addFunction behaviour)

def buildAll : List Spec → StateM World (List Value)
  | [] => return []
  | spec :: specs => do
    let value ← build spec
    let values ← buildAll specs
    return value :: values

def buildEntries : List (String × Spec) → StateM World (List (String × Value))
  | [] => return []
  | (name, spec) :: entries => do
    let value ← build spec
    let values ← buildEntries entries
    return (name, value) :: values
end

end Spec

/-- The frames of a description, from the outermost inwards. -/
def buildLocals : List (List (String × Spec)) → StateM World (List (List (String × Value)))
  | [] => return []
  | frame :: frames => do
    let first ← Spec.buildEntries frame
    let others ← buildLocals frames
    return first :: others

end ChangeWatch.Scripted
