import ChangeWatch.Pipe.ListDiff
import ChangeWatch.Pipe.MapDiff
import ChangeWatch.Expr.Error

/-!
Pipes turn a value into another one and may remember what they have seen. Three kinds are built in:
one reports what changed in a list, one what changed in a map, and one stands in for a collection
that is not there yet. All others belong to the application.
-/
namespace ChangeWatch

inductive PipeError where
  | notFound (name : String)
  | unsupported (name : String) (kind : Value.Kind)
  | transform (name message : String)
deriving DecidableEq, Repr

namespace PipeError

def message : PipeError → String
  | notFound name => s!"cannot find pipe '{name}'"
  | unsupported name kind => s!"cannot find a pipe '{name}' supporting {kind.name}"
  | transform name message => s!"pipe '{name}' failed: {message}"

/-- The pipe that failed. -/
def name : PipeError → String
  | notFound name | unsupported name _ | transform name _ => name

end PipeError

/-- What a pipe makes of a value: a new value, or nothing new. -/
inductive Transformed where
  | value (value : Value)
  | noChange
deriving Inhabited

/-- The kinds of built-in pipes. -/
inductive BuiltIn where
  | listDiff | mapDiff | placeholder
deriving DecidableEq, Repr

namespace BuiltIn

def supports : BuiltIn → Value → Bool
  | listDiff, .list _ _ => true
  | mapDiff, .map _ _ => true
  | placeholder, .null => true
  | _, _ => false

end BuiltIn

/-- A built-in pipe with what it remembers. -/
inductive BuiltInPipe where
  | listDiff (previous : Option (List Value))
  | mapDiff (previous : Option (Entries Value))
  | placeholder (published : Bool)
deriving Inhabited

namespace BuiltInPipe

def create : BuiltIn → BuiltInPipe
  | .listDiff => listDiff none
  | .mapDiff => mapDiff none
  | .placeholder => placeholder false

def kind : BuiltInPipe → BuiltIn
  | listDiff _ => .listDiff
  | mapDiff _ => .mapDiff
  | placeholder _ => .placeholder

/-- A map with the given entries, whatever their order. -/
def mapOf (place : Place) (entries : List (String × Value)) : Value :=
  .map place (Entries.ofList entries)

/-- A list of maps, one for each item. -/
def listOf (place : Place) (items : List (List (String × Value))) : Value :=
  .list place (items.zipIdx.map fun (entries, index) => mapOf (.part index place) entries)

/-- A list diff as a value, made at the given place. -/
def ofListDiff (place : Place) (collection : Value) (diff : ListDiff) : Value :=
  mapOf place [
    ("collection", collection),
    ("additions", listOf (.part 0 place) (diff.additions.map fun a =>
      [("item", a.item), ("currentIndex", .ofNat a.currentIndex)])),
    ("removals", listOf (.part 1 place) (diff.removals.map fun r =>
      [("item", r.item), ("previousIndex", .ofNat r.previousIndex)])),
    ("moves", listOf (.part 2 place) (diff.moves.map fun m =>
      [("item", m.item), ("previousIndex", .ofNat m.previousIndex),
        ("currentIndex", .ofNat m.currentIndex)]))]

/-- A map diff as a value, made at the given place. -/
def ofMapDiff (place : Place) (map : Value) (diff : MapDiff) : Value :=
  mapOf place [
    ("map", map),
    ("additions", listOf (.part 0 place) (diff.additions.map fun a =>
      [("key", .str a.key), ("currentValue", a.currentValue)])),
    ("removals", listOf (.part 1 place) (diff.removals.map fun r =>
      [("key", .str r.key), ("previousValue", r.previousValue)])),
    ("changes", listOf (.part 2 place) (diff.changes.map fun c =>
      [("key", .str c.key), ("previousValue", c.previousValue),
        ("currentValue", c.currentValue)]))]

/-- Feeds a value to a pipe. A diff is published the first time, and then whenever it holds
anything; its containers are made at the given place. -/
def transform (pipe : BuiltInPipe) (place : Place) (value : Value) :
    Except PipeError Transformed × BuiltInPipe :=
  match pipe with
  | listDiff previous =>
    match value with
    | .list _ current =>
      let diff := ListDiff.between (previous.getD []) current
      let result := if previous.isSome && diff.isEmpty then .noChange
        else .value (ofListDiff place value diff)
      (.ok result, listDiff (some current))
    | other =>
      (.error (.transform "iterableDiff" s!"expected a list, found {other.kind.name}"), pipe)
  | mapDiff previous =>
    match value with
    | .map _ current =>
      let diff := MapDiff.between (previous.getD []) current
      let result := if previous.isSome && diff.isEmpty then .noChange
        else .value (ofMapDiff place value diff)
      (.ok result, mapDiff (some current))
    | other =>
      (.error (.transform "keyValDiff" s!"expected a map, found {other.kind.name}"), pipe)
  | placeholder published =>
    (.ok (if published then .noChange else .value .null), placeholder true)

end BuiltInPipe
end ChangeWatch
