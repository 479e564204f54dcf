import ChangeWatch.Pipe.Basic
import ChangeWatch.Proofs.Timeless.Diffs

/-!
Built-in pipes without time. What a pipe makes of a value is the same without time, and feeding it the
same value once more gives nothing new.
-/
namespace ChangeWatch

open Place (Timed Covered)

variable [Epoch]

noncomputable def Transformed.timeless : Transformed → Transformed
  | .value made => .value made.timeless
  | .noChange => .noChange

namespace BuiltInPipe

noncomputable def timeless : BuiltInPipe → BuiltInPipe
  | listDiff previous => listDiff (previous.map (List.map Value.timeless))
  | mapDiff previous => mapDiff (previous.map (Entries.mapValues Value.timeless))
  | placeholder published => placeholder published

/-- Everything that the pipe remembers was made at certain places. -/
def Sound (P : Place → Prop) : BuiltInPipe → Prop
  | listDiff previous => ∀ items, previous = some items → ∀ item ∈ items, item.Sound P
  | mapDiff previous => ∀ entries, previous = some entries → ∀ entry ∈ entries, entry.2.Sound P
  | placeholder _ => True

@[simp] theorem kind_timeless (pipe : BuiltInPipe) : pipe.timeless.kind = pipe.kind := by
  cases pipe <;> rfl

theorem Sound.timeless {P : Place → Prop} {pipe : BuiltInPipe} (sound : pipe.Sound P) :
    pipe.timeless.Sound fun _ => True := by
  cases pipe with
  | placeholder published => trivial
  | listDiff previous =>
    intro items same
    obtain ⟨before, rfl, rfl⟩ := Option.map_eq_some_iff.mp same
    exact List.forall_mem_map.mpr fun item member => (sound before rfl item member).timeless
  | mapDiff previous =>
    intro entries same
    obtain ⟨before, rfl, rfl⟩ := Option.map_eq_some_iff.mp same
    exact List.forall_mem_map.mpr fun entry member => (sound before rfl entry member).timeless

theorem create_timeless (kind : BuiltIn) : (create kind).timeless = create kind := by
  cases kind <;> rfl

theorem create_sound (P : Place → Prop) (kind : BuiltIn) : (create kind).Sound P := by
  cases kind with
  | placeholder => trivial
  | _ => exact fun _ impossible => nomatch impossible

section Made

variable {place home : Place}

theorem mapOf_timeless (same : place.timeless = home) (entries : List (String × Value)) :
    (mapOf place entries).timeless = mapOf home (Entries.mapValues Value.timeless entries) := by
  rw [mapOf, Value.timeless, same, Value.timelessEntries_eq_mapValues,
    ← Entries.ofList_mapValues]
  rfl

theorem listOf_timeless (timed : Timed place home) (items : List (List (String × Value))) :
    (listOf place items).timeless =
      listOf home (items.map (Entries.mapValues Value.timeless)) := by
  rw [listOf, Value.timeless, Value.timelessItems_eq_map, listOf, timed.whole, List.map_map,
    List.zipIdx_map, List.map_map]
  congr 1
  apply List.map_congr_left
  rintro ⟨entries, index⟩ -
  exact mapOf_timeless (timed.part index).whole entries

theorem ofNat_timeless (n : Nat) : (Value.ofNat n).timeless = .ofNat n :=
  Value.timeless_of_foreign _ (Value.ofNat_foreign n)

theorem ofListDiff_timeless (timed : Timed place home) (collection : Value) (diff : ListDiff) :
    (ofListDiff place collection diff).timeless =
      ofListDiff home collection.timeless diff.timeless := by
  rw [ofListDiff, mapOf_timeless (timed.whole)]
  simp only [ofListDiff, Entries.mapValues, List.map_cons, List.map_nil,
    listOf_timeless (timed.part _), List.map_map, ListDiff.timeless, Function.comp_def,
    ofNat_timeless]

theorem ofMapDiff_timeless (timed : Timed place home) (map : Value) (diff : MapDiff) :
    (ofMapDiff place map diff).timeless = ofMapDiff home map.timeless diff.timeless := by
  rw [ofMapDiff, mapOf_timeless (timed.whole)]
  simp only [ofMapDiff, Entries.mapValues, List.map_cons, List.map_nil,
    listOf_timeless (timed.part _), List.map_map, MapDiff.timeless, Function.comp_def,
    Value.timeless]

variable {P : Place → Prop}

theorem mapOf_sound (made : P place) {entries : List (String × Value)}
    (sound : ∀ entry ∈ entries, entry.2.Sound P) : (mapOf place entries).Sound P :=
  ⟨.inr made, (Entries.ofList_sorted entries).distinct,
    Value.soundEntries_iff.mpr fun entry member => sound entry (Entries.mem_of_mem_ofList member)⟩

theorem listOf_sound (covered : Covered P place) {items : List (List (String × Value))}
    (sound : ∀ entries ∈ items, ∀ entry ∈ entries, entry.2.Sound P) :
    (listOf place items).Sound P := by
  refine ⟨.inr covered.whole, Value.soundItems_iff.mpr ?_⟩
  intro item member
  obtain ⟨⟨entries, index⟩, listed, rfl⟩ := List.mem_map.mp member
  exact mapOf_sound (covered.part index).whole (sound entries (List.fst_mem_of_mem_zipIdx listed))

theorem ofListDiff_sound (covered : Covered P place) {collection : Value} {diff : ListDiff}
    (sound : collection.Sound P) (parts : diff.Sound P) :
    (ofListDiff place collection diff).Sound P := by
  have number (n : Nat) : (Value.ofNat n).Sound P := (Value.ofNat_foreign n).sound P
  refine mapOf_sound (covered.whole) ?_
  simp only [List.forall_mem_cons, List.not_mem_nil, false_imp_iff, implies_true, and_true]
  refine ⟨sound, ?_, ?_, ?_⟩ <;> refine listOf_sound (covered.part _) ?_ <;>
    simp only [List.forall_mem_map, List.forall_mem_cons, List.not_mem_nil, false_imp_iff,
      implies_true, and_true, number]
  · exact parts.additions
  · exact parts.removals
  · exact parts.moves

theorem ofMapDiff_sound (covered : Covered P place) {map : Value} {diff : MapDiff}
    (sound : map.Sound P) (parts : diff.Sound P) : (ofMapDiff place map diff).Sound P := by
  refine mapOf_sound (covered.whole) ?_
  simp only [List.forall_mem_cons, List.not_mem_nil, false_imp_iff, implies_true, and_true]
  refine ⟨sound, ?_, ?_, ?_⟩ <;> refine listOf_sound (covered.part _) ?_ <;>
    simp only [List.forall_mem_map, List.forall_mem_cons, List.not_mem_nil, false_imp_iff,
      implies_true, and_true, Value.Sound, true_and]
  · exact parts.additions
  · exact parts.removals
  · exact parts.changes

end Made

theorem transform_timeless {place home : Place} (timed : Timed place home) (pipe : BuiltInPipe)
    (value : Value) :
    pipe.timeless.transform home value.timeless =
      Prod.map (Except.map Transformed.timeless) timeless (pipe.transform place value) := by
  cases pipe with
  | placeholder published => cases published <;> rfl
  | listDiff previous =>
    cases value with
    | list whole current =>
      have diffs : ListDiff.between ((previous.map (List.map Value.timeless)).getD [])
          (current.map Value.timeless) =
          (ListDiff.between (previous.getD []) current).timeless := by
        rw [← ListDiff.between_timeless]
        cases previous <;> rfl
      have made := ofListDiff_timeless timed (.list whole current)
      simp only [Value.timeless, Value.timelessItems_eq_map] at made
      simp only [timeless, transform, Value.timeless, Value.timelessItems_eq_map, diffs,
        Option.isSome_map, ListDiff.isEmpty_timeless, ← made]
      split <;> rfl
    | _ => rfl
  | mapDiff previous =>
    cases value with
    | map whole current =>
      have diffs : MapDiff.between ((previous.map (Entries.mapValues Value.timeless)).getD [])
          (Entries.mapValues Value.timeless current) =
          (MapDiff.between (previous.getD []) current).timeless := by
        rw [← MapDiff.between_timeless]
        cases previous <;> rfl
      have made := ofMapDiff_timeless timed (.map whole current)
      simp only [Value.timeless, Value.timelessEntries_eq_mapValues] at made
      simp only [timeless, transform, Value.timeless, Value.timelessEntries_eq_mapValues, diffs,
        Option.isSome_map, MapDiff.isEmpty_timeless, ← made]
      split <;> rfl
    | _ => rfl

theorem transform_sound {P : Place → Prop} {place : Place} (covered : Covered P place)
    {pipe : BuiltInPipe} (remembered : pipe.Sound P) {value : Value} (sound : value.Sound P) :
    (pipe.transform place value).2.Sound P ∧
      ∀ made, (pipe.transform place value).1 = .ok (.value made) → made.Sound P := by
  cases pipe with
  | placeholder published =>
    refine ⟨trivial, ?_⟩
    intro made same
    cases published <;> cases same
    trivial
  | listDiff previous =>
    cases value with
    | list whole current =>
      have items := Value.soundItems_iff.mp sound.2
      have before : ∀ item ∈ previous.getD [], item.Sound P := by
        cases previous with
        | none => exact fun _ impossible => by cases impossible
        | some items => exact remembered items rfl
      constructor
      · intro now same
        cases same
        exact items
      · intro made same
        simp only [transform] at same
        split at same <;> cases same
        exact ofListDiff_sound covered sound (ListDiff.between_sound before items)
    | _ => exact ⟨remembered, fun _ impossible => by cases impossible⟩
  | mapDiff previous =>
    cases value with
    | map whole current =>
      have entries := Value.soundEntries_iff.mp sound.2.2
      have before : ∀ entry ∈ previous.getD [], entry.2.Sound P := by
        cases previous with
        | none => exact fun _ impossible => by cases impossible
        | some entries => exact remembered entries rfl
      constructor
      · intro now same
        cases same
        exact entries
      · intro made same
        simp only [transform] at same
        split at same <;> cases same
        exact ofMapDiff_sound covered sound (MapDiff.between_sound before entries)
    | _ => exact ⟨remembered, fun _ impossible => by cases impossible⟩

omit [Epoch] in
/-- The kind of a pipe never changes. -/
theorem transform_kind (pipe : BuiltInPipe) (place : Place) (value : Value) :
    (pipe.transform place value).2.kind = pipe.kind := by
  unfold transform
  split
  · split <;> rfl
  · split <;> rfl
  · rfl

omit [Epoch] in
/-- A pipe fails on values only that it does not support. -/
theorem transform_ok {pipe : BuiltInPipe} {value : Value}
    (supported : pipe.kind.supports value = true) (place : Place) :
    ∃ result, (pipe.transform place value).1 = .ok result := by
  cases pipe <;> cases value <;> first | exact ⟨_, rfl⟩ | cases supported

/-- What a pipe has taken in is nothing new to it. -/
theorem transform_again {P : Place → Prop} {pipe fed : BuiltInPipe} {place : Place}
    {value : Value} {result : Transformed} (other : Place) (sound : value.Sound P)
    (ran : pipe.transform place value = (.ok result, fed)) :
    fed.transform other value = (.ok .noChange, fed) := by
  cases pipe with
  | placeholder published =>
    cases ran
    rfl
  | listDiff previous =>
    cases value with
    | list whole current =>
      cases ran
      simp only [transform, Option.getD_some, Option.isSome_some, ListDiff.between_self,
        Bool.and_self, if_true]
    | _ => cases ran
  | mapDiff previous =>
    cases value with
    | map whole current =>
      cases ran
      simp only [transform, Option.getD_some, Option.isSome_some,
        MapDiff.between_self sound.2.1, Bool.and_self, if_true]
    | _ => cases ran

end BuiltInPipe
end ChangeWatch
