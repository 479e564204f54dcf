import ChangeWatch.Pipe.Basic
import ChangeWatch.Proofs.Entries
import ChangeWatch.Proofs.Identity

/-!
What a diff of two maps says: which keys appeared, which went, and which have another value. It turns the
previous map into the current one, and there is nothing in it when the maps are identical, and only
then. Maps are compared entry by entry; as their keys increase, this comes to a comparison at every key.
-/
namespace ChangeWatch

open Entries (Sorted get? get?_cons)

/-- Maps are the same if they have the same values at every key. -/
theorem Value.sameEntries_iff {nans : NaNs} {xs ys : Entries Value} (sorted : Sorted xs)
    (sorted' : Sorted ys) :
    sameEntries nans xs ys = true ↔
      ∀ key, Option.Rel (fun x y => same nans x y = true) (get? xs key) (get? ys key) := by
  induction xs generalizing ys with
  | nil =>
    cases ys with
    | nil => exact iff_of_true rfl fun _ => .none
    | cons entry ys =>
      obtain ⟨name, value⟩ := entry
      refine iff_of_false Bool.false_ne_true fun all => ?_
      have first := all name
      rw [get?_cons, if_pos rfl] at first
      cases first
  | cons entry xs ih =>
    obtain ⟨name, x⟩ := entry
    cases ys with
    | nil =>
      refine iff_of_false Bool.false_ne_true fun all => ?_
      have first := all name
      rw [get?_cons, if_pos rfl] at first
      cases first
    | cons entry ys =>
      obtain ⟨name', y⟩ := entry
      have rest := ih (List.pairwise_cons.mp sorted).2 (List.pairwise_cons.mp sorted').2
      rw [sameEntries, Bool.and_eq_true, Bool.and_eq_true, beq_iff_eq, rest]
      constructor
      · rintro ⟨⟨rfl, first⟩, others⟩ key
        rw [get?_cons, get?_cons]
        split
        · exact .some first
        · exact others key
      · intro all
        have first := all name
        have second := all name'
        rw [get?_cons, if_pos rfl] at first
        rw [get?_cons name' y, if_pos rfl] at second
        have below : name' ≤ name := sorted'.le_of_get? fun absent => by
          rw [absent] at first
          cases first
        have above : name ≤ name' := sorted.le_of_get? fun absent => by
          rw [absent] at second
          cases second
        obtain rfl := String.le_antisymm above below
        rw [get?_cons, if_pos rfl] at first
        cases first with
        | some same =>
          refine ⟨⟨rfl, same⟩, fun key => ?_⟩
          by_cases here : name = key
          · subst here
            rw [sorted.get?_behind (String.le_refl _), sorted'.get?_behind (String.le_refl _)]
            exact .none
          · have other := all key
            rw [get?_cons, get?_cons, if_neg here, if_neg here] at other
            exact other

namespace MapDiff

/-- A diff as an account of what is different at the keys of two maps. -/
structure Explains (previous current : Entries Value) (diff : MapDiff) : Prop where
  additions : ∀ addition, addition ∈ diff.additions ↔
    get? current addition.key = some addition.currentValue ∧ get? previous addition.key = none
  removals : ∀ removal, removal ∈ diff.removals ↔
    get? previous removal.key = some removal.previousValue ∧ get? current removal.key = none
  changes : ∀ change, change ∈ diff.changes ↔
    get? previous change.key = some change.previousValue ∧
      get? current change.key = some change.currentValue ∧
      change.previousValue.identical change.currentValue = false
  additionsOrdered : diff.additions.Pairwise fun first second => first.key < second.key
  removalsOrdered : diff.removals.Pairwise fun first second => first.key < second.key
  changesOrdered : diff.changes.Pairwise fun first second => first.key < second.key

variable {previous current : Entries Value}

theorem mem_additions (now : Sorted current) {addition : KeyAddition} :
    addition ∈ (between previous current).additions ↔
      get? current addition.key = some addition.currentValue ∧ get? previous addition.key = none := by
  rw [between, List.mem_filterMap, now.get?_eq_some]
  constructor
  · rintro ⟨⟨key, value⟩, member, made⟩
    cases was : get? previous key <;> simp only [was] at made <;> cases made
    exact ⟨member, was⟩
  · rintro ⟨member, was⟩
    exact ⟨_, member, by simp only [was]⟩

theorem mem_removals (before : Sorted previous) {removal : KeyRemoval} :
    removal ∈ (between previous current).removals ↔
      get? previous removal.key = some removal.previousValue ∧ get? current removal.key = none := by
  rw [between, List.mem_filterMap, before.get?_eq_some]
  constructor
  · rintro ⟨⟨key, old⟩, member, made⟩
    cases is : get? current key <;> simp only [is] at made <;> cases made
    exact ⟨member, is⟩
  · rintro ⟨member, is⟩
    exact ⟨_, member, by simp only [is]⟩

theorem mem_changes (now : Sorted current) {change : KeyChange} :
    change ∈ (between previous current).changes ↔
      get? previous change.key = some change.previousValue ∧
        get? current change.key = some change.currentValue ∧
        change.previousValue.identical change.currentValue = false := by
  rw [between, List.mem_filterMap, now.get?_eq_some]
  constructor
  · rintro ⟨⟨key, value⟩, member, made⟩
    cases was : get? previous key with
    | none =>
      simp only [was] at made
      cases made
    | some old =>
      simp only [was] at made
      split at made
      · cases made
      · rename_i differs
        cases made
        exact ⟨was, member, Bool.eq_false_iff.mpr differs⟩
  · rintro ⟨was, member, differs⟩
    exact ⟨_, member, by simp [was, differs]⟩

theorem explains (before : Sorted previous) (now : Sorted current) :
    Explains previous current (between previous current) := by
  refine ⟨fun _ => mem_additions now, fun _ => mem_removals before, fun _ => mem_changes now,
    Entries.filterMap_ordered now ?_, Entries.filterMap_ordered before ?_,
    Entries.filterMap_ordered now ?_⟩
  · rintro ⟨key, value⟩ addition made
    cases was : get? previous key <;> simp only [was] at made <;> cases made
    rfl
  · rintro ⟨key, old⟩ removal made
    cases is : get? current key <;> simp only [is] at made <;> cases made
    rfl
  · rintro ⟨key, value⟩ change made
    cases was : get? previous key with
    | none =>
      simp only [was] at made
      cases made
    | some old =>
      simp only [was] at made
      split at made <;> cases made
      rfl

/-- The map that a diff leads to: without what was removed, and with what was added or changed. -/
def rebuild (previous : Entries Value) (diff : MapDiff) : Entries Value :=
  Entries.insertAll (diff.changes.map fun change => (change.key, change.currentValue))
    (Entries.insertAll (diff.additions.map fun addition => (addition.key, addition.currentValue))
      (Entries.eraseAll (diff.removals.map KeyRemoval.key) previous))

theorem rebuild_sorted (before : Sorted previous) (diff : MapDiff) :
    Sorted (diff.rebuild previous) :=
  Entries.insertAll_sorted (Entries.insertAll_sorted (Entries.eraseAll_sorted before _) _) _

namespace Explains

variable {diff : MapDiff} {key : String} {value : Value} (explains : Explains previous current diff)
include explains

/-- There is nothing in a diff of identical maps, and of no others. -/
theorem isEmpty_iff (before : Sorted previous) (now : Sorted current) :
    diff.isEmpty = true ↔ Value.sameEntries .agree previous current = true := by
  rw [Value.sameEntries_iff before now]
  simp only [isEmpty, Bool.and_eq_true, List.isEmpty_iff]
  constructor
  · rintro ⟨⟨noAdditions, noRemovals⟩, noChanges⟩ key
    cases was : get? previous key with
    | none =>
      cases is : get? current key with
      | none => exact .none
      | some value =>
        have added := (explains.additions { key, currentValue := value }).mpr ⟨is, was⟩
        rw [noAdditions] at added
        cases added
    | some old =>
      cases is : get? current key with
      | none =>
        have removed := (explains.removals { key, previousValue := old }).mpr ⟨was, is⟩
        rw [noRemovals] at removed
        cases removed
      | some value =>
        refine .some (Bool.not_eq_false _ ▸ fun differs => ?_)
        have changed := (explains.changes
          { key, previousValue := old, currentValue := value }).mpr ⟨was, is, differs⟩
        rw [noChanges] at changed
        cases changed
  · intro all
    refine ⟨⟨?_, ?_⟩, ?_⟩ <;> refine List.eq_nil_iff_forall_not_mem.mpr fun entry member => ?_
    · obtain ⟨is, was⟩ := (explains.additions entry).mp member
      have related := all entry.key
      rw [was, is] at related
      cases related
    · obtain ⟨was, is⟩ := (explains.removals entry).mp member
      have related := all entry.key
      rw [was, is] at related
      cases related
    · obtain ⟨was, is, differs⟩ := (explains.changes entry).mp member
      have related := all entry.key
      rw [was, is] at related
      cases related with
      | some same => cases differs.symm.trans same

theorem mem_written_additions :
    (key, value) ∈ (diff.additions.map fun addition => (addition.key, addition.currentValue)) ↔
      get? current key = some value ∧ get? previous key = none := by
  rw [List.mem_map]
  constructor
  · rintro ⟨addition, member, same⟩
    cases same
    exact (explains.additions addition).mp member
  · exact fun added => ⟨{ key, currentValue := value }, (explains.additions _).mpr added, rfl⟩

theorem mem_written_changes :
    (key, value) ∈ (diff.changes.map fun change => (change.key, change.currentValue)) ↔
      ∃ old, get? previous key = some old ∧ get? current key = some value ∧
        old.identical value = false := by
  rw [List.mem_map]
  constructor
  · rintro ⟨change, member, same⟩
    cases same
    exact ⟨_, (explains.changes change).mp member⟩
  · rintro ⟨old, changed⟩
    exact ⟨{ key, previousValue := old, currentValue := value }, (explains.changes _).mpr changed, rfl⟩

theorem mem_removed_keys : key ∈ diff.removals.map KeyRemoval.key ↔
    get? previous key ≠ none ∧ get? current key = none := by
  rw [List.mem_map]
  constructor
  · rintro ⟨removal, member, rfl⟩
    obtain ⟨was, gone⟩ := (explains.removals removal).mp member
    exact ⟨by simp [was], gone⟩
  · rintro ⟨was, gone⟩
    obtain ⟨old, was⟩ := Option.ne_none_iff_exists'.mp was
    exact ⟨{ key, previousValue := old }, (explains.removals _).mpr ⟨was, gone⟩, rfl⟩

/-- A diff leads from the previous map to the current one. -/
theorem rebuild_same (before : Sorted previous) (now : Sorted current) :
    Value.sameEntries .agree (diff.rebuild previous) current = true := by
  have additions : Sorted (diff.additions.map fun addition => (addition.key, addition.currentValue)) :=
    List.pairwise_map.mpr explains.additionsOrdered
  have changes : Sorted (diff.changes.map fun change => (change.key, change.currentValue)) :=
    List.pairwise_map.mpr explains.changesOrdered
  refine (Value.sameEntries_iff (rebuild_sorted before diff) now).mpr fun key => ?_
  rw [rebuild, Entries.get?_insertAll changes, Entries.get?_insertAll additions,
    Entries.get?_eraseAll before]
  cases change : get? (diff.changes.map fun change => (change.key, change.currentValue)) key with
  | some value =>
    obtain ⟨old, -, is, -⟩ := explains.mem_written_changes.mp (changes.get?_eq_some.mp change)
    rw [is]
    exact .some (Value.identical_self value)
  | none =>
    cases addition :
        get? (diff.additions.map fun addition => (addition.key, addition.currentValue)) key with
    | some value =>
      obtain ⟨is, -⟩ := explains.mem_written_additions.mp (additions.get?_eq_some.mp addition)
      rw [is]
      exact .some (Value.identical_self value)
    | none =>
      rw [Option.none_or, Option.none_or]
      split
      · rename_i removed
        rw [(explains.mem_removed_keys.mp removed).2]
        exact .none
      · rename_i kept
        cases was : get? previous key with
        | none =>
          cases is : get? current key with
          | none => exact .none
          | some value =>
            have added := explains.mem_written_additions.mpr ⟨is, was⟩
            cases addition.symm.trans (additions.get?_eq_some.mpr added)
        | some old =>
          cases is : get? current key with
          | none => exact absurd (explains.mem_removed_keys.mpr ⟨by simp [was], is⟩) kept
          | some value =>
            refine .some (Bool.not_eq_false _ ▸ fun differs => ?_)
            have changed := explains.mem_written_changes.mpr ⟨old, was, is, differs⟩
            cases change.symm.trans (changes.get?_eq_some.mpr changed)

end Explains

end MapDiff

namespace BuiltInPipe

/-- The entries of a published map diff, each a list with one map for every part of the diff. -/
theorem ofMapDiff_eq (place : Place) (map : Value) (diff : MapDiff) :
    ofMapDiff place map diff = .map place [
      ("additions", .list (.part 0 place) (diff.additions.zipIdx.map fun (added, index) =>
        .map (.part index (.part 0 place))
          [("currentValue", added.currentValue), ("key", .str added.key)])),
      ("changes", .list (.part 2 place) (diff.changes.zipIdx.map fun (change, index) =>
        .map (.part index (.part 2 place)) [("currentValue", change.currentValue),
          ("key", .str change.key), ("previousValue", change.previousValue)])),
      ("map", map),
      ("removals", .list (.part 1 place) (diff.removals.zipIdx.map fun (removed, index) =>
        .map (.part index (.part 1 place))
          [("key", .str removed.key), ("previousValue", removed.previousValue)]))] := by
  simp only [ofMapDiff, mapOf, listOf, Entries.ofList, Entries.insert, List.zipIdx_map, List.map_map,
    Function.comp_def, Prod.map_fst, Prod.map_snd, id_eq, List.foldl_cons, List.foldl_nil,
    String.reduceLT, String.reduceEq, ↓reduceIte]

end BuiltInPipe

/-- What a map diff pipe makes of a map, behind any map before or none. -/
theorem BuiltInPipe.transform_map_explained {previous : Option (Entries Value)}
    {current : Entries Value} (before : Sorted (previous.getD [])) (now : Sorted current)
    (place there elsewhere : Place) :
    ∃ diff, MapDiff.Explains (previous.getD []) current diff ∧
      Sorted (diff.rebuild (previous.getD [])) ∧
      (Value.map elsewhere (diff.rebuild (previous.getD []))).identical (.map there current) = true ∧
      transform (.mapDiff previous) place (.map there current) =
        (.ok (if previous.isSome = true ∧
            (Value.map there current).identical (.map elsewhere (previous.getD [])) = true then
          .noChange else .value (ofMapDiff place (.map there current) diff)),
        .mapDiff (some current)) := by
  have explains := MapDiff.explains before now
  refine ⟨_, explains, MapDiff.rebuild_sorted before _, ?_, ?_⟩
  · rw [Value.identical, Value.same_map_agree]
    exact explains.rebuild_same before now
  · have unchanged : (Value.map there current).identical (.map elsewhere (previous.getD [])) = true ↔
        (MapDiff.between (previous.getD []) current).isEmpty = true := by
      rw [explains.isEmpty_iff before now, Value.identical_comm, Value.identical,
        Value.same_map_agree]
    simp only [transform, unchanged, Bool.and_eq_true]

/-- One fruit has another colour, one is gone and one is new. -/
theorem BuiltInPipe.transform_map_explained_fruits :
    let before : Entries Value := [("apple", .str "green"), ("pear", .str "green")]
    let now : Entries Value := [("apple", .str "red"), ("plum", .str "blue")]
    Sorted before ∧ Sorted now ∧ ∃ additions changes removals,
      transform (.mapDiff (some before)) (.host 0) (.map (.host 1) now) =
        (.ok (.value (.map (.host 0) [("additions", .list (.part 0 (.host 0)) additions),
          ("changes", .list (.part 2 (.host 0)) changes), ("map", .map (.host 1) now),
          ("removals", .list (.part 1 (.host 0)) removals)])), .mapDiff (some now)) ∧
      (∃ index, .map (.part index (.part 0 (.host 0)))
        [("currentValue", .str "blue"), ("key", .str "plum")] ∈ additions) ∧
      ∃ index, .map (.part index (.part 2 (.host 0))) [("currentValue", .str "red"),
        ("key", .str "apple"), ("previousValue", .str "green")] ∈ changes := by
  intro before now
  have sorted : Sorted before := by
    unfold Sorted
    decide +kernel
  have sorted' : Sorted now := by
    unfold Sorted
    decide +kernel
  obtain ⟨diff, explains, -, -, ran⟩ := BuiltInPipe.transform_map_explained
    (show Sorted ((some before).getD []) from sorted) sorted' (.host 0) (.host 1) (.host 2)
  have different : (Value.map (.host 1) now).identical (.map (.host 2) before) = false := by
    decide +kernel
  rw [Option.getD_some, different, if_neg fun both => Bool.false_ne_true both.2, ofMapDiff_eq] at ran
  refine ⟨sorted, sorted', _, _, _, ran, ?_, ?_⟩
  · have added : { key := "plum", currentValue := .str "blue" } ∈ diff.additions :=
      (explains.additions _).mpr ⟨rfl, rfl⟩
    exact Entries.exists_mem_map_zipIdx _ added
  · have recoloured : (Value.str "green").identical (.str "red") = false := by decide +kernel
    have changed : { key := "apple", previousValue := .str "green", currentValue := .str "red" } ∈
        diff.changes := (explains.changes _).mpr ⟨rfl, rfl, recoloured⟩
    exact Entries.exists_mem_map_zipIdx _ changed

end ChangeWatch
