import ChangeWatch.Value.Equality

/-!
What changed between two lists. Every item of the current list is matched with the first identical
item of the previous list that is still free. Items without a match were added, previous items left
free were removed, and matches at different indexes are moves.
-/
namespace ChangeWatch

structure Addition where
  item : Value
  currentIndex : Nat

structure Removal where
  item : Value
  previousIndex : Nat

structure Move where
  item : Value
  previousIndex : Nat
  currentIndex : Nat

structure ListDiff where
  additions : List Addition
  removals : List Removal
  moves : List Move

namespace ListDiff

/-- Takes the first free item identical to the given one out of the free items. -/
def take? (item : Value) : List (Nat × Value) → Option (Nat × List (Nat × Value))
  | [] => none
  | (index, old) :: free =>
    if old.identical item then some (index, free)
    else (take? item free).map fun (found, rest) => (found, (index, old) :: rest)

/-- The previous index matched with each item, in order, and the items that stay free. -/
def pair : List (Nat × Value) → List Value → List (Option Nat) × List (Nat × Value)
  | free, [] => ([], free)
  | free, item :: items =>
    match take? item free with
    | some (index, free) =>
      let (indexes, rest) := pair free items
      (some index :: indexes, rest)
    | none =>
      let (indexes, rest) := pair free items
      (none :: indexes, rest)

/-- Items with their indexes. -/
def numbered (items : List Value) : List (Nat × Value) :=
  items.zipIdx.map fun (item, index) => (index, item)

/-- The current items in order, each with its index and the previous index matched with it. -/
def matched (previous current : List Value) : List (Nat × Value × Option Nat) :=
  (numbered current).zipWith (fun (index, item) found => (index, item, found))
    (pair (numbered previous) current).1

def between (previous current : List Value) : ListDiff where
  additions := (matched previous current).filterMap fun (index, item, found) =>
    match found with
    | none => some { item, currentIndex := index }
    | some _ => none
  removals := (pair (numbered previous) current).2.map fun (index, item) =>
    { item, previousIndex := index }
  moves := (matched previous current).filterMap fun (index, item, found) =>
    match found with
    | none => none
    | some old =>
      if old = index then none else some { item, previousIndex := old, currentIndex := index }

def isEmpty (diff : ListDiff) : Bool :=
  diff.additions.isEmpty && diff.removals.isEmpty && diff.moves.isEmpty

end ListDiff
end ChangeWatch
