import ChangeWatch.Host.Access
import ChangeWatch.Host.Record
import ChangeWatch.Detector.Record
import ChangeWatch.Value.Snapshot

/-!
An application described by data: records and sealed objects, functions with a described behaviour,
and a journal of what was called. It stands in for a real application wherever one has to be given.
-/
namespace ChangeWatch.Scripted

/-- What a function does with its arguments. -/
inductive Behaviour where
  | const (value : Value)
  | thunk (value : Value)
  | args
  | argc
  | first
  | concat
  | count (next : Int64)
  | fail (message : String)
  | set (record field : String)
  | trace (label : String) (value : Value)
deriving Inhabited

/-- An object. A sealed one lets its fields be read but shows none of them. -/
structure Thing where
  record : Record
  isSealed : Bool := false
deriving Inhabited

/-- A change as it was handed over. -/
structure SeenChange where
  binding : String
  previous : Option Snapshot
  current : Snapshot

/-- What is written into the journal. -/
inductive Event where
  | call (label : String) (args : List Snapshot)
  | create (tag : String) (number : Nat)
  | transform (tag : String) (number : Nat) (value : Snapshot)
  | destroy (tag : String) (number : Nat)
  | flush (group : String) (changes : List SeenChange)

inductive PipeBehaviour where
  | counting | identity | join | args | tag | fail | nochange | once
deriving DecidableEq, Repr

/-- The behaviour with a name. -/
def PipeBehaviour.ofName? : String → Option PipeBehaviour
  | "counting" => some .counting
  | "identity" => some .identity
  | "join" => some .join
  | "args" => some .args
  | "tag" => some .tag
  | "fail" => some .fail
  | "nochange" => some .nochange
  | "once" => some .once
  | _ => none

/-- A pipe maker: which values it makes a pipe for, which values the pipes support, and what they
do. A list of kinds that is missing admits every value. -/
structure PipeSpec where
  tag : String
  accepts : Option (List String) := none
  supports : Option (List String) := none
  behaviour : PipeBehaviour
  message : String := "failed"
  after : Nat := 0

/-- A pipe in use: its number among the pipes of its maker, how often it was fed, and the last value
that it let through. -/
structure PipeState where
  spec : PipeSpec
  number : Nat
  seen : Nat := 0
  last : Option Value := none

structure World where
  things : List Thing := []
  functions : List Behaviour := []
  /-- How many containers and pipes have been made so far. -/
  made : Nat := 0
  records : Entries ObjectRef := []
  values : Entries Value := []
  pipes : List PipeState := []
  /-- How many pipes each maker has made. -/
  makers : List Nat := []
  events : List Event := []
  log : ChangeLog := []

namespace World

def thing? (world : World) (ref : ObjectRef) : Option Thing := world.things[ref.id]?

/-- What an object shows of itself. -/
def fields (world : World) (ref : ObjectRef) : List (String × Value) :=
  match world.thing? ref with
  | some thing => if thing.isSealed then [] else thing.record.fields
  | none => []

/-- No object holds a longer chain of objects than there are objects. -/
def nesting (world : World) : Nat := world.things.length

def snapshot (world : World) (value : Value) : Snapshot :=
  value.snapshot world.fields (world.nesting + 1)

def toJson (world : World) (value : Value) : Json :=
  value.toJson world.fields (world.nesting + 1)

/-- Writes into the journal. -/
def note (event : Event) (world : World) : World :=
  { world with events := world.events ++ [event] }

/-- Empties the journal. -/
def takeEvents : StateM World (List Event) := fun world =>
  (world.events, { world with events := [] })

/-- A new place for a container. -/
def place : StateM World Place := fun world =>
  (.host world.made, { world with made := world.made + 1 })

/-- A new object. -/
def addThing (record : Record) (isSealed : Bool) : StateM World ObjectRef := fun world =>
  ({ id := world.things.length, typeName := record.typeName },
    { world with things := world.things ++ [{ record, isSealed }] })

/-- A new function. -/
def addFunction (behaviour : Behaviour) : StateM World FunctionRef := fun world =>
  ({ id := world.functions.length },
    { world with functions := world.functions ++ [behaviour] })

/-- Changes a remembered record, and gives the field's value before the change. -/
def changeRecord (name field : String) (change : Record → Record) :
    StateM World (Option (Option Value)) := fun world =>
  match Entries.get? world.records name with
  | none => (none, world)
  | some ref =>
    match world.thing? ref with
    | none => (none, world)
    | some thing =>
      (some (thing.record.get? field),
        { world with
          things := world.things.set ref.id { thing with record := change thing.record } })

/-- Sets a field of a remembered record. -/
def setField (record field : String) (value : Value) : StateM World (Option (Option Value)) :=
  changeRecord record field fun r => r.set field value

/-- Removes a field of a remembered record. -/
def unsetField (record field : String) : StateM World (Option (Option Value)) :=
  changeRecord record field fun r => r.erase field

def requireCount (expected : Nat) (args : List Value) : Access World Unit :=
  if args.length = expected then return () else throw (.arity expected args.length)

/-- Calls a function by its number. -/
def call (ref : FunctionRef) (args : List Value) : Access World Value := do
  match (← get).functions[ref.id]? with
  | none => throw (.host "no such function")
  | some behaviour =>
    match behaviour with
    | .const value => return value
    | .thunk value =>
      requireCount 0 args
      return value
    | .args => return .list (← place) args
    | .argc => return .ofNat args.length
    | .first => return args.head?.getD .null
    | .concat => return .str (String.join (args.map Value.display))
    | .count next =>
      requireCount 0 args
      modify fun world =>
        { world with functions := world.functions.set ref.id (.count (next + 1)) }
      return .int next
    | .fail message => throw (.host message)
    | .set record field =>
      match args with
      | [value] =>
        match ← setField record field value with
        | none => throw (.host "no such record")
        | some old => return old.getD .null
      | _ => throw (.arity 1 args.length)
    | .trace label value =>
      modify fun world => world.note (.call label (args.map world.snapshot))
      return value

def readField (ref : ObjectRef) (name : String) : Access World Value := do
  match ((← get).thing? ref).bind fun thing => thing.record.get? name with
  | some value => return value
  | none => throw (.unknownField ref.typeName name)

end World

/-- The application. -/
def host : Host World := .ofFields World.call World.readField World.fields World.nesting

end ChangeWatch.Scripted
