import ChangeWatch.Proofs.Differences.Lists
import ChangeWatch.Proofs.Timeless.Values

/-!
Laws of differences. A difference goes by identity alone, so it does not see time, and nothing differs
from itself. What it reports was in one of the two collections.
-/
namespace ChangeWatch

namespace ListDiff

theorem between_self (items : List Value) : (between items items).isEmpty = true :=
  (explains items items).isEmpty_iff.mpr (Value.items_self items)

end ListDiff

namespace MapDiff

theorem between_self {entries : Entries Value} (distinct : (entries.map Prod.fst).Nodup) :
    (between entries entries).isEmpty = true := by
  have found (entry) (member : entry ∈ entries) :
      Entries.get? entries entry.1 = some entry.2 := Entries.get?_of_mem distinct member
  have identical (value : Value) : value.identical value = true := Value.identical_self value
  simp only [isEmpty, between, Bool.and_eq_true, List.isEmpty_iff, List.filterMap_eq_nil_iff]
  refine ⟨⟨?_, ?_⟩, ?_⟩ <;> intro entry member <;> simp [found entry member, identical]

end MapDiff

variable [Epoch]

namespace ListDiff

noncomputable def timeless (diff : ListDiff) : ListDiff where
  additions := diff.additions.map fun a => { a with item := a.item.timeless }
  removals := diff.removals.map fun r => { r with item := r.item.timeless }
  moves := diff.moves.map fun m => { m with item := m.item.timeless }

/-- Everything in the difference was made at certain places. -/
structure Sound (P : Place → Prop) (diff : ListDiff) : Prop where
  additions : ∀ a ∈ diff.additions, a.item.Sound P
  removals : ∀ r ∈ diff.removals, r.item.Sound P
  moves : ∀ m ∈ diff.moves, m.item.Sound P

theorem numbered_timeless (items : List Value) :
    numbered (items.map Value.timeless) =
      (numbered items).map (Prod.map id Value.timeless) := by
  simp only [numbered, List.zipIdx_map, List.map_map]
  rfl

theorem take?_timeless (item : Value) (free : List (Nat × Value)) :
    take? item.timeless (free.map (Prod.map id Value.timeless)) =
      (take? item free).map (Prod.map id (List.map (Prod.map id Value.timeless))) := by
  induction free with
  | nil => rfl
  | cons entry free ih =>
    obtain ⟨index, old⟩ := entry
    simp only [List.map_cons, Prod.map_apply, id, take?, Value.identical_timeless]
    split
    · rfl
    · rw [ih]
      cases take? item free <;> rfl

theorem pair_timeless (free : List (Nat × Value)) (items : List Value) :
    pair (free.map (Prod.map id Value.timeless)) (items.map Value.timeless) =
      Prod.map id (List.map (Prod.map id Value.timeless)) (pair free items) := by
  induction items generalizing free with
  | nil => rfl
  | cons item items ih =>
    simp only [List.map_cons, pair, take?_timeless]
    cases take? item free with
    | none =>
      simp only [Option.map_none, ih]
      rfl
    | some taken =>
      simp only [Option.map_some, Prod.map_snd, Prod.map_fst, ih]
      rfl

theorem matched_timeless (previous current : List Value) :
    matched (previous.map Value.timeless) (current.map Value.timeless) =
      (matched previous current).map fun entry => (entry.1, entry.2.1.timeless, entry.2.2) := by
  simp only [matched, numbered_timeless, pair_timeless, Prod.map_fst, id]
  rw [List.zipWith_map_left, List.map_zipWith]
  rfl

theorem between_timeless (previous current : List Value) :
    between (previous.map Value.timeless) (current.map Value.timeless) =
      (between previous current).timeless := by
  simp only [between, timeless, matched_timeless, numbered_timeless, pair_timeless,
    List.filterMap_map, List.map_filterMap, Prod.map_snd, List.map_map]
  congr 1
  · congr 1
    funext entry
    obtain ⟨index, item, found⟩ := entry
    cases found <;> rfl
  · congr 1
    funext entry
    obtain ⟨index, item, found⟩ := entry
    cases found with
    | none => rfl
    | some old =>
      simp only [Function.comp]
      split <;> rfl

theorem isEmpty_timeless (diff : ListDiff) : diff.timeless.isEmpty = diff.isEmpty := by
  simp only [isEmpty, timeless, List.isEmpty_map]

variable {P : Place → Prop}

theorem between_sound {previous current : List Value} (before : ∀ item ∈ previous, item.Sound P)
    (now : ∀ item ∈ current, item.Sound P) : (between previous current).Sound P where
  additions a member := now a.item (List.mem_of_getElem? (mem_additions.mp member).1)
  removals r member := before r.item (List.mem_of_getElem? (mem_removals.mp member).1)
  moves m member := now m.item (List.mem_of_getElem? (mem_moves.mp member).1)

end ListDiff

namespace MapDiff

noncomputable def timeless (diff : MapDiff) : MapDiff where
  additions := diff.additions.map fun a => { a with currentValue := a.currentValue.timeless }
  removals := diff.removals.map fun r => { r with previousValue := r.previousValue.timeless }
  changes := diff.changes.map fun c =>
    { c with previousValue := c.previousValue.timeless, currentValue := c.currentValue.timeless }

/-- Everything in the difference was made at certain places. -/
structure Sound (P : Place → Prop) (diff : MapDiff) : Prop where
  additions : ∀ a ∈ diff.additions, a.currentValue.Sound P
  removals : ∀ r ∈ diff.removals, r.previousValue.Sound P
  changes : ∀ c ∈ diff.changes, c.previousValue.Sound P ∧ c.currentValue.Sound P

theorem between_timeless (previous current : Entries Value) :
    between (Entries.mapValues Value.timeless previous)
        (Entries.mapValues Value.timeless current) =
      (between previous current).timeless := by
  simp only [between, timeless, Entries.get?_mapValues, Entries.filterMap_mapValues,
    List.map_filterMap]
  congr 1 <;> congr 1 <;> funext entry
  · cases Entries.get? previous entry.1 <;> rfl
  · cases Entries.get? current entry.1 <;> rfl
  · cases Entries.get? previous entry.1 with
    | none => rfl
    | some old =>
      simp only [Option.map_some, Value.identical_timeless]
      split <;> rfl

theorem isEmpty_timeless (diff : MapDiff) : diff.timeless.isEmpty = diff.isEmpty := by
  simp only [isEmpty, timeless, List.isEmpty_map]

variable {P : Place → Prop}

theorem between_sound {previous current : Entries Value}
    (before : ∀ entry ∈ previous, entry.2.Sound P) (now : ∀ entry ∈ current, entry.2.Sound P) :
    (between previous current).Sound P where
  additions a member := by
    obtain ⟨⟨key, value⟩, listed, same⟩ := List.mem_filterMap.mp member
    cases found : Entries.get? previous key with
    | none =>
      simp only [found, Option.some.injEq] at same
      exact same ▸ now _ listed
    | some old => simp [found] at same
  removals r member := by
    obtain ⟨⟨key, value⟩, listed, same⟩ := List.mem_filterMap.mp member
    cases found : Entries.get? current key with
    | none =>
      simp only [found, Option.some.injEq] at same
      exact same ▸ before _ listed
    | some new => simp [found] at same
  changes c member := by
    obtain ⟨⟨key, value⟩, listed, same⟩ := List.mem_filterMap.mp member
    cases found : Entries.get? previous key with
    | none => simp [found] at same
    | some old =>
      simp only [found, Option.ite_none_left_eq_some, Option.some.injEq] at same
      exact same.2 ▸ ⟨before _ (Entries.mem_of_get? found), now _ listed⟩

end MapDiff
end ChangeWatch
