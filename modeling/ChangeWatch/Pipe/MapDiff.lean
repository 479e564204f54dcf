import ChangeWatch.Value.Equality

/-!
What changed between two maps: keys that appeared, keys that went, and keys whose values are no longer
identical, each in the order of the keys.
-/
namespace ChangeWatch

structure KeyAddition where
  key : String
  currentValue : Value

structure KeyRemoval where
  key : String
  previousValue : Value

structure KeyChange where
  key : String
  previousValue : Value
  currentValue : Value

structure MapDiff where
  additions : List KeyAddition
  removals : List KeyRemoval
  changes : List KeyChange

namespace MapDiff

def between (previous current : Entries Value) : MapDiff where
  additions := current.filterMap fun (key, value) =>
    match Entries.get? previous key with
    | none => some { key, currentValue := value }
    | some _ => none
  removals := previous.filterMap fun (key, old) =>
    match Entries.get? current key with
    | none => some { key, previousValue := old }
    | some _ => none
  changes := current.filterMap fun (key, value) =>
    match Entries.get? previous key with
    | none => none
    | some old =>
      if old.identical value then none
      else some { key, previousValue := old, currentValue := value }

def isEmpty (diff : MapDiff) : Bool :=
  diff.additions.isEmpty && diff.removals.isEmpty && diff.changes.isEmpty

end MapDiff
end ChangeWatch
