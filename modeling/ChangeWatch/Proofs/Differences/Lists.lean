import ChangeWatch.Pipe.Basic
import ChangeWatch.Proofs.Differences.Pairing
import ChangeWatch.Proofs.Entries
import ChangeWatch.Proofs.Identity

/-!
What a diff of two lists says. Some current items are matched with identical previous ones, none of them
twice; what was added, removed or moved can be read off the matching, and the matching can be read off
the diff as far as it matters: the diff turns the previous list into the current one. There is nothing
in a diff when the lists are identical, and only then.
-/
namespace ChangeWatch

namespace ListDiff

/-- A diff as an account of a matching of current items, by index, with previous ones. -/
structure Explains (matching : Nat → Option Nat) (previous current : List Value) (diff : ListDiff) :
    Prop where
  identical : ∀ index old, matching index = some old →
    ∃ before now, previous[old]? = some before ∧ current[index]? = some now ∧
      before.identical now = true
  injective : ∀ index other old, matching index = some old → matching other = some old →
    index = other
  /-- An identical item that is passed over was matched before. -/
  passed : ∀ index now old before, current[index]? = some now → previous[old]? = some before →
    before.identical now = true → (∀ chosen, matching index = some chosen → old < chosen) →
      ∃ earlier < index, matching earlier = some old
  additions : ∀ addition, addition ∈ diff.additions ↔
    current[addition.currentIndex]? = some addition.item ∧ matching addition.currentIndex = none
  removals : ∀ removal, removal ∈ diff.removals ↔
    previous[removal.previousIndex]? = some removal.item ∧
      ∀ index, matching index ≠ some removal.previousIndex
  moves : ∀ move, move ∈ diff.moves ↔
    current[move.currentIndex]? = some move.item ∧
      matching move.currentIndex = some move.previousIndex ∧ move.previousIndex ≠ move.currentIndex
  additionsOrdered : diff.additions.Pairwise fun first second =>
    first.currentIndex < second.currentIndex
  removalsOrdered : diff.removals.Pairwise fun first second =>
    first.previousIndex < second.previousIndex
  movesOrdered : diff.moves.Pairwise fun first second => first.currentIndex < second.currentIndex
  balance : previous.length + diff.additions.length = current.length + diff.removals.length

variable {previous current : List Value}

section Between

theorem numbered_getElem? (items : List Value) (index : Nat) :
    (numbered items)[index]? = items[index]?.map fun item => (index, item) := by
  rw [numbered, List.getElem?_map, List.getElem?_zipIdx, Option.map_map, Nat.zero_add]
  rfl

theorem mem_numbered {items : List Value} {entry : Nat × Value} :
    entry ∈ numbered items ↔ items[entry.1]? = some entry.2 := by
  rw [numbered, List.mem_map]
  constructor
  · rintro ⟨⟨item, index⟩, member, rfl⟩
    exact List.mem_zipIdx_iff_getElem?.mp member
  · exact fun here => ⟨(entry.2, entry.1), List.mem_zipIdx_iff_getElem?.mpr here, rfl⟩

theorem numbered_ordered (items : List Value) :
    (numbered items).Pairwise fun first second => first.1 < second.1 := by
  have indexes : (items.zipIdx.map Prod.snd).Pairwise (· < ·) := by
    rw [List.zipIdx_map_snd]
    exact List.pairwise_lt_range'
  exact List.pairwise_map.mpr (List.pairwise_map.mp indexes)

theorem matched_getElem? (previous current : List Value) (index : Nat) :
    (matched previous current)[index]? = (current[index]?).bind fun item =>
      ((pair (numbered previous) current).1[index]?).map fun found => (index, item, found) := by
  rw [matched, List.getElem?_zipWith, numbered_getElem?]
  cases current[index]? <;> cases (pair (numbered previous) current).1[index]? <;> rfl

theorem mem_matched {entry : Nat × Value × Option Nat} :
    entry ∈ matched previous current ↔ current[entry.1]? = some entry.2.1 ∧
      (pair (numbered previous) current).1[entry.1]? = some entry.2.2 := by
  obtain ⟨index, item, found⟩ := entry
  constructor
  · intro member
    obtain ⟨place, there⟩ := List.mem_iff_getElem?.mp member
    rw [matched_getElem?] at there
    obtain ⟨item', here, there⟩ := Option.bind_eq_some_iff.mp there
    obtain ⟨found', chosen, same⟩ := Option.map_eq_some_iff.mp there
    cases same
    exact ⟨here, chosen⟩
  · rintro ⟨here, chosen⟩
    refine List.mem_iff_getElem?.mpr ⟨index, ?_⟩
    rw [matched_getElem?, here, Option.bind_some, chosen, Option.map_some]

theorem matched_ordered (previous current : List Value) :
    (matched previous current).Pairwise fun first second => first.1 < second.1 := by
  have place {index : Nat} {entry : Nat × Value × Option Nat}
      (there : (matched previous current)[index]? = some entry) : entry.1 = index := by
    rw [matched_getElem?] at there
    obtain ⟨item, -, there⟩ := Option.bind_eq_some_iff.mp there
    obtain ⟨found, -, rfl⟩ := Option.map_eq_some_iff.mp there
    rfl
  refine List.pairwise_iff_getElem.mpr fun first second here there before => ?_
  rw [place (List.getElem?_eq_getElem here), place (List.getElem?_eq_getElem there)]
  exact before

/-- The matching that a diff is made from. -/
def matching (previous current : List Value) (index : Nat) : Option Nat :=
  (pair (numbered previous) current).1[index]?.join

theorem matching_eq_some {index old : Nat} : matching previous current index = some old ↔
    (pair (numbered previous) current).1[index]? = some (some old) := Option.join_eq_some_iff

theorem getElem?_pair {index : Nat} {now : Value} (here : current[index]? = some now) :
    (pair (numbered previous) current).1[index]? = some (matching previous current index) := by
  obtain ⟨bound, -⟩ := List.getElem?_eq_some_iff.mp here
  rw [← (pairing (numbered previous) current).length] at bound
  rw [matching, List.getElem?_eq_getElem bound]
  rfl

/-- An addition for every item that chooses nothing. -/
theorem length_additions (previous current : List Value) :
    (between previous current).additions.length =
      (pair (numbered previous) current).1.count none := by
  have choices : (matched previous current).map (fun entry => entry.2.2) =
      (pair (numbered previous) current).1 := by
    refine List.ext_getElem? fun index => ?_
    rw [List.getElem?_map, matched_getElem?]
    cases here : current[index]? with
    | none =>
      have outside := List.getElem?_eq_none_iff.mp here
      rw [← (pairing (numbered previous) current).length] at outside
      rw [List.getElem?_eq_none outside]
      rfl
    | some now =>
      rw [getElem?_pair here]
      rfl
  rw [← choices, List.count, List.countP_map, between, List.length_filterMap_eq_countP]
  refine congrArg (fun isAdded => (matched previous current).countP isAdded) (funext fun entry => ?_)
  obtain ⟨index, item, found⟩ := entry
  cases found <;> rfl

theorem mem_additions {addition : Addition} : addition ∈ (between previous current).additions ↔
    current[addition.currentIndex]? = some addition.item ∧
      matching previous current addition.currentIndex = none := by
  rw [between, List.mem_filterMap]
  constructor
  · rintro ⟨⟨index, item, found⟩, member, made⟩
    obtain ⟨here, chosen⟩ := mem_matched.mp member
    cases found with
    | none =>
      cases made
      exact ⟨here, Option.some.inj ((getElem?_pair here).symm.trans chosen)⟩
    | some old => cases made
  · rintro ⟨here, unmatched⟩
    exact ⟨(addition.currentIndex, addition.item, none),
      mem_matched.mpr ⟨here, unmatched ▸ getElem?_pair here⟩, rfl⟩

theorem mem_moves {move : Move} : move ∈ (between previous current).moves ↔
    current[move.currentIndex]? = some move.item ∧
      matching previous current move.currentIndex = some move.previousIndex ∧
      move.previousIndex ≠ move.currentIndex := by
  rw [between, List.mem_filterMap]
  constructor
  · rintro ⟨⟨index, item, found⟩, member, made⟩
    obtain ⟨here, chosen⟩ := mem_matched.mp member
    cases found with
    | none => cases made
    | some old =>
      dsimp only at made
      split at made
      · cases made
      · rename_i apart
        cases made
        exact ⟨here, matching_eq_some.mpr chosen, apart⟩
  · rintro ⟨here, chosen, apart⟩
    exact ⟨(move.currentIndex, move.item, some move.previousIndex),
      mem_matched.mpr ⟨here, matching_eq_some.mp chosen⟩, if_neg apart⟩

theorem mem_removals {removal : Removal} : removal ∈ (between previous current).removals ↔
    previous[removal.previousIndex]? = some removal.item ∧
      ∀ index : Nat, matching previous current index ≠ some removal.previousIndex := by
  have paired := pairing (numbered previous) current
  have free {entry : Nat × Value} (here : entry ∈ numbered previous) :
      entry ∈ (pair (numbered previous) current).2 ↔
        ∀ index : Nat, matching previous current index ≠ some entry.1 := by
    simp only [paired.mem_rest (numbered_ordered previous) here, ne_eq, matching_eq_some]
  rw [between, List.mem_map]
  constructor
  · rintro ⟨entry, member, rfl⟩
    have here := paired.sublist.subset member
    exact ⟨mem_numbered.mp here, (free here).mp member⟩
  · rintro ⟨here, unchosen⟩
    refine ⟨(removal.previousIndex, removal.item), ?_, rfl⟩
    exact (free (mem_numbered.mpr here)).mpr unchosen

theorem explains (previous current : List Value) :
    Explains (matching previous current) previous current (between previous current) := by
  have paired := pairing (numbered previous) current
  have ordered := numbered_ordered previous
  refine ⟨?_, ?_, ?_, fun _ => mem_additions, fun _ => mem_removals, fun _ => mem_moves, ?_, ?_, ?_,
    ?_⟩
  · intro index old chosen
    obtain ⟨before, now, member, here, same⟩ := paired.identical (matching_eq_some.mp chosen)
    exact ⟨before, now, mem_numbered.mp member, here, same⟩
  · exact fun index other old first second =>
      paired.injective ordered (matching_eq_some.mp first) (matching_eq_some.mp second)
  · intro index now old before here there same behind
    have free : (old, before) ∈ numbered previous := mem_numbered.mpr there
    obtain ⟨earlier, ahead, chosen⟩ :=
      paired.passed ordered (getElem?_pair here) here free same behind
    exact ⟨earlier, ahead, matching_eq_some.mpr chosen⟩
  · refine Entries.filterMap_ordered (matched_ordered previous current) ?_
    rintro ⟨index, item, found⟩ addition made
    cases found <;> cases made
    rfl
  · exact List.pairwise_map.mpr (ordered.sublist paired.sublist)
  · refine Entries.filterMap_ordered (matched_ordered previous current) ?_
    rintro ⟨index, item, found⟩ move made
    cases found with
    | none => cases made
    | some old =>
      dsimp only at made
      split at made <;> cases made
      rfl
  · have additions := length_additions previous current
    have removals : (between previous current).removals.length = _ := List.length_map _
    have numbers : (numbered previous).length = previous.length := by simp [numbered]
    have balance := paired.balance
    omega

end Between

/-- The item at an index of the list that a diff leads to, if there is one: what was added or moved there,
or else the previous item. -/
def itemAt? (previous : List Value) (diff : ListDiff) (index : Nat) : Option Value :=
  ((diff.additions.find? fun addition => addition.currentIndex == index).map Addition.item).or
    (((diff.moves.find? fun move => move.currentIndex == index).map Move.item).or previous[index]?)

/-- The list that a diff leads to, if it has an item at every index. -/
def rebuild? (previous : List Value) (diff : ListDiff) : Option (List Value) :=
  (List.range (previous.length + diff.additions.length - diff.removals.length)).mapM
    (diff.itemAt? previous)

section Lookup

variable {entries : List β} {indexOf : β → Nat} {itemOf : β → Value} {index : Nat} {now : Value}

/-- Whichever entry with an index is found, it has the item of the index. -/
theorem find?_item (items : ∀ entry ∈ entries, current[indexOf entry]? = some (itemOf entry))
    (here : current[index]? = some now) (listed : ∃ entry ∈ entries, indexOf entry = index) :
    (entries.find? fun entry => indexOf entry == index).map itemOf = some now := by
  cases found : entries.find? fun entry => indexOf entry == index with
  | some entry =>
    have placed := List.find?_some found
    rw [beq_iff_eq] at placed
    rw [Option.map_some, ← here, ← placed]
    exact (items entry (List.mem_of_find?_eq_some found)).symm
  | none =>
    obtain ⟨entry, member, placed⟩ := listed
    exact absurd (beq_iff_eq.mpr placed) (List.find?_eq_none.mp found entry member)

theorem find?_item_of_none (absent : ¬ ∃ entry ∈ entries, indexOf entry = index) :
    (entries.find? fun entry => indexOf entry == index).map itemOf = none := by
  refine Option.map_eq_none_iff.mpr (List.find?_eq_none.mpr fun entry member placed => ?_)
  exact absent ⟨entry, member, beq_iff_eq.mp placed⟩

end Lookup

/-- What every element has some value for, a list has a list of values for. -/
theorem exists_mapM {f : α → Option β} {R : α → β → Prop} {xs : List α}
    (each : ∀ x ∈ xs, ∃ y, f x = some y ∧ R x y) :
    ∃ ys, xs.mapM f = some ys ∧ ys.length = xs.length ∧
      ∀ (index : Nat) (x : α) (y : β), xs[index]? = some x → ys[index]? = some y → R x y := by
  induction xs with
  | nil => exact ⟨[], rfl, rfl, fun _ _ _ impossible => by cases impossible⟩
  | cons x xs ih =>
    obtain ⟨⟨y, value, related⟩, others⟩ := List.forall_mem_cons.mp each
    obtain ⟨ys, values, length, all⟩ := ih others
    refine ⟨y :: ys, ?_, congrArg Nat.succ length, fun index x' y' here there => ?_⟩
    · rw [List.mapM_cons, value, values]
      rfl
    · cases index with
      | zero =>
        cases here
        cases there
        exact related
      | succ index => exact all index x' y' here there

namespace Explains

variable {diff : ListDiff} {matching : Nat → Option Nat} {index : Nat} {now : Value}
  (explains : Explains matching previous current diff)
include explains

/-- Nothing that was added is identical to anything that was removed. -/
theorem apart : ∀ addition ∈ diff.additions, ∀ removal ∈ diff.removals,
    addition.item.identical removal.item = false := by
  intro addition added removal removed
  obtain ⟨here, unmatched⟩ := (explains.additions addition).mp added
  obtain ⟨there, unchosen⟩ := (explains.removals removal).mp removed
  refine Bool.eq_false_iff.mpr fun same => ?_
  rw [Value.identical_comm] at same
  obtain ⟨earlier, -, chosen⟩ := explains.passed _ _ _ _ here there same fun chosen found => by
    cases unmatched.symm.trans found
  exact unchosen earlier chosen

/-- Items of identical lists are matched in place, because all before them are. -/
theorem matching_of_same (same : Value.sameItems .agree previous current = true)
    (bound : index < current.length) : matching index = some index := by
  obtain ⟨length, all⟩ := Value.sameItems_iff.mp same
  induction index using Nat.strongRecOn with
  | ind index ih =>
    have taken {old earlier : Nat} (ahead : earlier < index) (chosen : matching earlier = some old) :
        old = earlier :=
      (Option.some.inj ((ih earlier ahead (Nat.lt_trans ahead bound)).symm.trans chosen)).symm
    have here := List.getElem?_eq_getElem bound
    have there := List.getElem?_eq_getElem (length ▸ bound : index < previous.length)
    have identical := all index _ _ there here
    have passed := explains.passed index _ index _ here there identical
    cases found : matching index with
    | none =>
      obtain ⟨earlier, ahead, chosen⟩ := passed fun _ impossible => by
        cases found.symm.trans impossible
      exact absurd (taken ahead chosen) (Nat.ne_of_gt ahead)
    | some old =>
      rcases Nat.lt_trichotomy old index with ahead | rfl | behind
      · have again := ih old ahead (Nat.lt_trans ahead bound)
        exact absurd (explains.injective _ _ _ again found) (Nat.ne_of_lt ahead)
      · rfl
      · obtain ⟨earlier, ahead, chosen⟩ := passed fun chosen same => by
          cases found.symm.trans same
          exact behind
        exact absurd (taken ahead chosen) (Nat.ne_of_gt ahead)

/-- There is nothing in a diff of identical lists, and of no others. -/
theorem isEmpty_iff : diff.isEmpty = true ↔ Value.sameItems .agree previous current = true := by
  simp only [isEmpty, Bool.and_eq_true, List.isEmpty_iff]
  constructor
  · rintro ⟨⟨noAdditions, noRemovals⟩, noMoves⟩
    have length := explains.balance
    rw [noAdditions, noRemovals] at length
    refine Value.sameItems_iff.mpr ⟨length, fun index before now there here => ?_⟩
    cases found : matching index with
    | none =>
      have added := (explains.additions { item := now, currentIndex := index }).mpr ⟨here, found⟩
      rw [noAdditions] at added
      cases added
    | some old =>
      obtain ⟨before', now', there', here', same⟩ := explains.identical index old found
      by_cases stays : old = index
      · subst stays
        cases there.symm.trans there'
        cases here.symm.trans here'
        exact same
      · have moved := (explains.moves
          { item := now, previousIndex := old, currentIndex := index }).mpr ⟨here, found, stays⟩
        rw [noMoves] at moved
        cases moved
  · intro same
    have length := (Value.sameItems_iff.mp same).1
    refine ⟨⟨?_, ?_⟩, ?_⟩ <;> refine List.eq_nil_iff_forall_not_mem.mpr fun entry member => ?_
    · obtain ⟨here, unmatched⟩ := (explains.additions entry).mp member
      obtain ⟨bound, -⟩ := List.getElem?_eq_some_iff.mp here
      cases unmatched.symm.trans (explains.matching_of_same same bound)
    · obtain ⟨there, unchosen⟩ := (explains.removals entry).mp member
      obtain ⟨bound, -⟩ := List.getElem?_eq_some_iff.mp there
      exact unchosen _ (explains.matching_of_same same (length ▸ bound))
    · obtain ⟨here, chosen, apart⟩ := (explains.moves entry).mp member
      obtain ⟨bound, -⟩ := List.getElem?_eq_some_iff.mp here
      exact apart (Option.some.inj (chosen.symm.trans (explains.matching_of_same same bound)))

theorem added_at (here : current[index]? = some now) :
    (∃ addition ∈ diff.additions, addition.currentIndex = index) ↔ matching index = none := by
  constructor
  · rintro ⟨addition, member, rfl⟩
    exact ((explains.additions addition).mp member).2
  · exact fun unmatched =>
      ⟨{ item := now, currentIndex := index }, (explains.additions _).mpr ⟨here, unmatched⟩, rfl⟩

theorem moved_at (here : current[index]? = some now) :
    (∃ move ∈ diff.moves, move.currentIndex = index) ↔
      ∃ old, matching index = some old ∧ old ≠ index := by
  constructor
  · rintro ⟨move, member, rfl⟩
    exact ⟨move.previousIndex, ((explains.moves move).mp member).2⟩
  · rintro ⟨old, chosen, apart⟩
    exact ⟨{ item := now, previousIndex := old, currentIndex := index },
      (explains.moves _).mpr ⟨here, chosen, apart⟩, rfl⟩

/-- At every index a diff leads to an item identical to the current one. -/
theorem exists_itemAt (here : current[index]? = some now) :
    ∃ item, diff.itemAt? previous index = some item ∧ item.identical now = true := by
  rw [itemAt?]
  cases chosen : matching index with
  | none =>
    have added := (explains.added_at here).mpr chosen
    rw [find?_item (fun addition member => ((explains.additions addition).mp member).1) here added]
    exact ⟨now, rfl, Value.identical_self now⟩
  | some old =>
    have kept : ¬ ∃ addition ∈ diff.additions, addition.currentIndex = index := by
      rw [explains.added_at here, chosen]
      exact Option.some_ne_none old
    rw [find?_item_of_none kept, Option.none_or]
    by_cases stays : old = index
    · subst stays
      have unmoved : ¬ ∃ move ∈ diff.moves, move.currentIndex = old := by
        rw [explains.moved_at here, chosen]
        rintro ⟨_, same, apart⟩
        exact apart (Option.some.inj same).symm
      obtain ⟨before, now', there, here', same⟩ := explains.identical old old chosen
      cases here.symm.trans here'
      rw [find?_item_of_none unmoved, Option.none_or]
      exact ⟨before, there, same⟩
    · have moved := (explains.moved_at here).mpr ⟨old, chosen, stays⟩
      rw [find?_item (fun move member => ((explains.moves move).mp member).1) here moved]
      exact ⟨now, rfl, Value.identical_self now⟩

/-- A diff leads from the previous list to the current one. -/
theorem exists_rebuild : ∃ rebuilt, diff.rebuild? previous = some rebuilt ∧
    Value.sameItems .agree rebuilt current = true := by
  have balance : previous.length + diff.additions.length - diff.removals.length = current.length := by
    rw [explains.balance, Nat.add_sub_cancel]
  have each : ∀ index ∈ List.range current.length, ∃ item,
      diff.itemAt? previous index = some item ∧
        ∀ now, current[index]? = some now → item.identical now = true := by
    intro index member
    have here := List.getElem?_eq_getElem (List.mem_range.mp member)
    obtain ⟨item, value, same⟩ := explains.exists_itemAt here
    refine ⟨item, value, fun now here' => ?_⟩
    cases here.symm.trans here'
    exact same
  obtain ⟨rebuilt, values, length, all⟩ := exists_mapM each
  refine ⟨rebuilt, by rw [rebuild?, balance]; exact values, Value.sameItems_iff.mpr ?_⟩
  refine ⟨length.trans List.length_range, fun index item now there here => ?_⟩
  obtain ⟨bound, -⟩ := List.getElem?_eq_some_iff.mp here
  exact all index index item (List.getElem?_range bound) there now here

end Explains

end ListDiff

namespace BuiltInPipe

/-- The entries of a published list diff, each a list with one map for every part of the diff. -/
theorem ofListDiff_eq (place : Place) (collection : Value) (diff : ListDiff) :
    ofListDiff place collection diff = .map place [
      ("additions", .list (.part 0 place) (diff.additions.zipIdx.map fun (added, index) =>
        .map (.part index (.part 0 place))
          [("currentIndex", .ofNat added.currentIndex), ("item", added.item)])),
      ("collection", collection),
      ("moves", .list (.part 2 place) (diff.moves.zipIdx.map fun (moved, index) =>
        .map (.part index (.part 2 place)) [("currentIndex", .ofNat moved.currentIndex),
          ("item", moved.item), ("previousIndex", .ofNat moved.previousIndex)])),
      ("removals", .list (.part 1 place) (diff.removals.zipIdx.map fun (removed, index) =>
        .map (.part index (.part 1 place))
          [("item", removed.item), ("previousIndex", .ofNat removed.previousIndex)]))] := by
  simp only [ofListDiff, mapOf, listOf, Entries.ofList, Entries.insert, List.zipIdx_map, List.map_map,
    Function.comp_def, Prod.map_fst, Prod.map_snd, id_eq, List.foldl_cons, List.foldl_nil,
    String.reduceLT, String.reduceEq, ↓reduceIte]

end BuiltInPipe

/-- What a list diff pipe makes of a list, behind any list before or none. -/
theorem BuiltInPipe.transform_list_explained (previous : Option (List Value)) (current : List Value)
    (place there elsewhere : Place) :
    ∃ matching diff rebuilt, ListDiff.Explains matching (previous.getD []) current diff ∧
      (∀ addition ∈ diff.additions, ∀ removal ∈ diff.removals,
        addition.item.identical removal.item = false) ∧
      diff.rebuild? (previous.getD []) = some rebuilt ∧
      (Value.list elsewhere rebuilt).identical (.list there current) = true ∧
      transform (.listDiff previous) place (.list there current) =
        (.ok (if previous.isSome = true ∧
            (Value.list there current).identical (.list elsewhere (previous.getD [])) = true then
          .noChange else .value (ofListDiff place (.list there current) diff)),
        .listDiff (some current)) := by
  have explains := ListDiff.explains (previous.getD []) current
  obtain ⟨rebuilt, rebuilds, same⟩ := explains.exists_rebuild
  refine ⟨_, _, rebuilt, explains, explains.apart, rebuilds, ?_, ?_⟩
  · rw [Value.identical, Value.same_list_agree]
    exact same
  · have unchanged : (Value.list there current).identical (.list elsewhere (previous.getD [])) = true ↔
        (ListDiff.between (previous.getD []) current).isEmpty = true := by
      rw [explains.isEmpty_iff, Value.identical_comm, Value.identical, Value.same_list_agree]
    simp only [transform, unchanged, Bool.and_eq_true]

/-- One letter is gone, and another one behind the letter that stays is new. -/
theorem BuiltInPipe.transform_list_explained_letters :
    let before : List Value := [.str "a", .str "b"]
    let now : List Value := [.str "b", .str "c"]
    ∃ additions moves removals,
      transform (.listDiff (some before)) (.host 0) (.list (.host 1) now) =
        (.ok (.value (.map (.host 0) [("additions", .list (.part 0 (.host 0)) additions),
          ("collection", .list (.host 1) now), ("moves", .list (.part 2 (.host 0)) moves),
          ("removals", .list (.part 1 (.host 0)) removals)])), .listDiff (some now)) ∧
      ∃ index, .map (.part index (.part 0 (.host 0)))
        [("currentIndex", .ofNat 1), ("item", .str "c")] ∈ additions := by
  intro before now
  obtain ⟨matching, diff, -, explains, -, -, -, ran⟩ := BuiltInPipe.transform_list_explained
    (some before) now (.host 0) (.host 1) (.host 2)
  have different : (Value.list (.host 1) now).identical (.list (.host 2) before) = false := by
    decide +kernel
  rw [Option.getD_some, different, if_neg fun both => Bool.false_ne_true both.2, ofListDiff_eq] at ran
  refine ⟨_, _, _, ran, ?_⟩
  have unmatched : matching 1 = none := by
    refine Option.eq_none_iff_forall_ne_some.mpr fun old chosen => ?_
    obtain ⟨letter, last, there, here, same⟩ := explains.identical 1 old chosen
    cases here
    have others : ∀ letter ∈ before, letter.identical (.str "c") = false := by decide +kernel
    cases same.symm.trans (others letter (List.mem_of_getElem? there))
  have added : { item := .str "c", currentIndex := 1 } ∈ diff.additions :=
    (explains.additions _).mpr ⟨rfl, unmatched⟩
  exact Entries.exists_mem_map_zipIdx _ added

end ChangeWatch
