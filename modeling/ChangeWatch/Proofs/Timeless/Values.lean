import ChangeWatch.Proofs.Entries
import ChangeWatch.Proofs.Identity
import ChangeWatch.Proofs.Timeless.Places
import ChangeWatch.Value.Json

/-!
Values without the time at which their containers were made. Nothing that is shown of a value tells
that time, and neither does identity. Equality tells it only for operands that share a container.
-/
namespace ChangeWatch.Value

variable [Epoch]

mutual
noncomputable def timeless : Value → Value
  | list place items => list place.timeless (timelessItems items)
  | map place entries => map place.timeless (timelessEntries entries)
  | value => value

noncomputable def timelessItems : List Value → List Value
  | [] => []
  | item :: items => item.timeless :: timelessItems items

noncomputable def timelessEntries : List (String × Value) → List (String × Value)
  | [] => []
  | (name, value) :: entries => (name, value.timeless) :: timelessEntries entries
end

theorem timelessItems_eq_map (items : List Value) : timelessItems items = items.map timeless := by
  induction items with
  | nil => rfl
  | cons item items ih => rw [timelessItems, ih, List.map_cons]

theorem timelessEntries_eq_mapValues (entries : List (String × Value)) :
    timelessEntries entries = Entries.mapValues timeless entries := by
  induction entries with
  | nil => rfl
  | cons entry entries ih =>
    rw [timelessEntries, ih]
    rfl

@[simp] theorem names_timelessEntries (entries : List (String × Value)) :
    (timelessEntries entries).map Prod.fst = entries.map Prod.fst := by
  simp [timelessEntries_eq_mapValues, Entries.mapValues, Function.comp_def]

mutual
/-- A value whose containers are given or were made at certain places. No map in it has a name twice,
and its objects and functions are those that the expression may meet. -/
def Sound (P : Place → Prop) : Value → Prop
  | list place items => (place.Given ∨ P place) ∧ SoundItems P items
  | map place entries =>
    (place.Given ∨ P place) ∧ (entries.map Prod.fst).Nodup ∧ SoundEntries P entries
  | object ref => Epoch.Object ref
  | function ref => Epoch.Function ref
  | _ => True

def SoundItems (P : Place → Prop) : List Value → Prop
  | [] => True
  | item :: items => item.Sound P ∧ SoundItems P items

def SoundEntries (P : Place → Prop) : List (String × Value) → Prop
  | [] => True
  | (_, value) :: entries => value.Sound P ∧ SoundEntries P entries
end

/-- A value and its timeless image. The containers of the value were made at certain places. -/
def Image (P : Place → Prop) (value image : Value) : Prop := image = value.timeless ∧ value.Sound P

/-- A value whose containers are given. -/
def Foreign (value : Value) : Prop := value.Sound fun _ => False

theorem soundItems_iff {P : Place → Prop} {items : List Value} :
    SoundItems P items ↔ ∀ item ∈ items, item.Sound P := by
  induction items with
  | nil => simp [SoundItems]
  | cons item items ih => simp [SoundItems, ih]

theorem soundEntries_iff {P : Place → Prop} {entries : List (String × Value)} :
    SoundEntries P entries ↔ ∀ entry ∈ entries, entry.2.Sound P := by
  induction entries with
  | nil => simp [SoundEntries]
  | cons entry entries ih => simp [SoundEntries, ih]

mutual
theorem Sound.mono {P Q : Place → Prop} (implied : ∀ place, P place → Q place) :
    (value : Value) → value.Sound P → value.Sound Q
  | list place items, ⟨owned, sound⟩ =>
    ⟨owned.imp_right (implied place), SoundItems.mono implied items sound⟩
  | map place entries, ⟨owned, distinct, sound⟩ =>
    ⟨owned.imp_right (implied place), distinct, SoundEntries.mono implied entries sound⟩
  | null, _ | bool _, _ | int _, _ | float _, _ | str _, _ => trivial
  | object _, known | function _, known => known

theorem SoundItems.mono {P Q : Place → Prop} (implied : ∀ place, P place → Q place) :
    (items : List Value) → SoundItems P items → SoundItems Q items
  | [], _ => trivial
  | item :: items, ⟨first, others⟩ =>
    ⟨Sound.mono implied item first, SoundItems.mono implied items others⟩

theorem SoundEntries.mono {P Q : Place → Prop} (implied : ∀ place, P place → Q place) :
    (entries : List (String × Value)) → SoundEntries P entries → SoundEntries Q entries
  | [], _ => trivial
  | (_, value) :: entries, ⟨first, others⟩ =>
    ⟨Sound.mono implied value first, SoundEntries.mono implied entries others⟩
end

theorem Foreign.sound {value : Value} (foreign : value.Foreign) (P : Place → Prop) :
    value.Sound P :=
  Sound.mono (fun _ impossible => impossible.elim) value foreign

mutual
theorem sound_timeless {P : Place → Prop} :
    (value : Value) → (value.timeless.Sound P ↔ value.Sound fun place => P place.timeless)
  | list place items => by
    simp only [timeless, Sound, Place.given_timeless, soundItems_timeless items]
  | map place entries => by
    simp only [timeless, Sound, Place.given_timeless, names_timelessEntries,
      soundEntries_timeless entries]
  | null | bool _ | int _ | float _ | str _ | object _ | function _ => Iff.rfl

theorem soundItems_timeless {P : Place → Prop} : (items : List Value) →
    (SoundItems P (timelessItems items) ↔ SoundItems (fun place => P place.timeless) items)
  | [] => Iff.rfl
  | item :: items => by
    simp only [timelessItems, SoundItems, sound_timeless item, soundItems_timeless items]

theorem soundEntries_timeless {P : Place → Prop} : (entries : List (String × Value)) →
    (SoundEntries P (timelessEntries entries) ↔
      SoundEntries (fun place => P place.timeless) entries)
  | [] => Iff.rfl
  | (_, value) :: entries => by
    simp only [timelessEntries, SoundEntries, sound_timeless value,
      soundEntries_timeless entries]
end

theorem Sound.timeless {P : Place → Prop} {value : Value} (sound : value.Sound P) :
    value.timeless.Sound fun _ => True :=
  (sound_timeless value).mpr (sound.mono fun _ _ => trivial)

mutual
theorem timeless_of_foreign : (value : Value) → value.Foreign → value.timeless = value
  | list place items, ⟨owned, foreign⟩ => by
    rw [timeless, Place.timeless_of_given (owned.resolve_right id),
      timelessItems_of_foreign items foreign]
  | map place entries, ⟨owned, _, foreign⟩ => by
    rw [timeless, Place.timeless_of_given (owned.resolve_right id),
      timelessEntries_of_foreign entries foreign]
  | null, _ | bool _, _ | int _, _ | float _, _ | str _, _ | object _, _ | function _, _ => rfl

theorem timelessItems_of_foreign : (items : List Value) → SoundItems (fun _ => False) items →
    timelessItems items = items
  | [], _ => rfl
  | item :: items, ⟨first, others⟩ => by
    rw [timelessItems, timeless_of_foreign item first, timelessItems_of_foreign items others]

theorem timelessEntries_of_foreign : (entries : List (String × Value)) →
    SoundEntries (fun _ => False) entries → timelessEntries entries = entries
  | [], _ => rfl
  | (_, value) :: entries, ⟨first, others⟩ => by
    rw [timelessEntries, timeless_of_foreign value first, timelessEntries_of_foreign entries others]
end

omit [Epoch] in
theorem ofNat_eq (n : Nat) :
    ∃ word : Option Int64, ofNat n = (word.map int).getD (float (floatOfInt n)) := by
  refine ⟨int64? n, ?_⟩
  unfold ofNat
  rfl

/-- A value without parts that means the same to every application. -/
def IsScalar : Value → Prop
  | null | bool _ | int _ | float _ | str _ => True
  | list _ _ | map _ _ | object _ | function _ => False

theorem IsScalar.foreign {value : Value} (scalar : value.IsScalar) : value.Foreign := by
  cases value <;> trivial

theorem ofNat_foreign (n : Nat) : (ofNat n).Foreign := by
  obtain ⟨word, same⟩ := ofNat_eq n
  rw [same]
  cases word <;> trivial

section Shown

@[simp] theorem kind_timeless (value : Value) : value.timeless.kind = value.kind := by
  cases value <;> rfl

@[simp] theorem truthy_timeless (value : Value) : value.timeless.truthy = value.truthy := by
  cases value <;> rfl

@[simp] theorem asFloat?_timeless (value : Value) : value.timeless.asFloat? = value.asFloat? := by
  cases value <;> rfl

mutual
@[simp] theorem display_timeless : (value : Value) → value.timeless.display = value.display
  | list place items => by simp only [timeless, display, displayItems_timeless items]
  | map place entries => by simp only [timeless, display, displayEntries_timeless entries]
  | null | bool _ | int _ | float _ | str _ | object _ | function _ => rfl

theorem displayItems_timeless : (items : List Value) →
    displayItems (timelessItems items) = displayItems items
  | [] => rfl
  | item :: items => by
    simp only [timelessItems, displayItems, display_timeless item, displayItems_timeless items]

theorem displayEntries_timeless : (entries : List (String × Value)) →
    displayEntries (timelessEntries entries) = displayEntries entries
  | [] => rfl
  | (name, value) :: entries => by
    simp only [timelessEntries, displayEntries, display_timeless value,
      displayEntries_timeless entries]
end

mutual
theorem toJsonWith_timeless (expand : ObjectRef → Json) :
    (value : Value) → value.timeless.toJsonWith expand = value.toJsonWith expand
  | list place items => by simp only [timeless, toJsonWith, itemsToJson_timeless expand items]
  | map place entries => by
    simp only [timeless, toJsonWith, entriesToJson_timeless expand entries]
  | null | bool _ | int _ | float _ | str _ | object _ | function _ => rfl

theorem itemsToJson_timeless (expand : ObjectRef → Json) : (items : List Value) →
    itemsToJson expand (timelessItems items) = itemsToJson expand items
  | [] => rfl
  | item :: items => by
    simp only [timelessItems, itemsToJson, toJsonWith_timeless expand item,
      itemsToJson_timeless expand items]

theorem entriesToJson_timeless (expand : ObjectRef → Json) : (entries : List (String × Value)) →
    entriesToJson expand (timelessEntries entries) = entriesToJson expand entries
  | [] => rfl
  | (name, value) :: entries => by
    simp only [timelessEntries, entriesToJson, toJsonWith_timeless expand value,
      entriesToJson_timeless expand entries]
end

theorem toJson_timeless (fields : ObjectRef → List (String × Value)) (depth : Nat)
    (value : Value) : value.timeless.toJson fields depth = value.toJson fields depth := by
  cases depth <;> exact toJsonWith_timeless _ value

end Shown

section Equality

mutual
/-- Identity goes by contents alone. -/
theorem same_agree_timeless : (first second : Value) →
    same .agree first.timeless second.timeless = same .agree first second
  | list p xs, second => by
    cases second with
    | list q ys => simpa only [timeless, same_list_agree] using sameItems_agree_timeless xs ys
    | _ => rfl
  | map p xs, second => by
    cases second with
    | map q ys => simpa only [timeless, same_map_agree] using sameEntries_agree_timeless xs ys
    | _ => rfl
  | null, second | bool _, second | int _, second | float _, second | str _, second
  | object _, second | function _, second => by cases second <;> rfl

theorem sameItems_agree_timeless : (first second : List Value) →
    sameItems .agree (timelessItems first) (timelessItems second) = sameItems .agree first second
  | [], [] | [], _ :: _ | _ :: _, [] => rfl
  | x :: xs, y :: ys => by
    simp only [timelessItems, sameItems, same_agree_timeless x y, sameItems_agree_timeless xs ys]

theorem sameEntries_agree_timeless : (first second : List (String × Value)) →
    sameEntries .agree (timelessEntries first) (timelessEntries second) =
      sameEntries .agree first second
  | [], [] | [], _ :: _ | _ :: _, [] => rfl
  | (_, x) :: xs, (_, y) :: ys => by
    simp only [timelessEntries, sameEntries, same_agree_timeless x y,
      sameEntries_agree_timeless xs ys]
end

@[simp] theorem identical_timeless (first second : Value) :
    first.timeless.identical second.timeless = first.identical second :=
  same_agree_timeless first second

/-- Containers made at places of the two kinds are the same with their time if they are the same
without it. -/
def Apart (P Q : Place → Prop) : Prop :=
  ∀ first second, first.Given ∨ P first → second.Given ∨ Q second →
    (first.timeless = second.timeless ↔ first = second)

variable {P Q : Place → Prop}

theorem Apart.beq (apart : Apart P Q) {first second : Place}
    (owned : first.Given ∨ P first) (other : second.Given ∨ Q second) :
    (first.timeless == second.timeless) = (first == second) := by
  rw [Bool.eq_iff_iff, beq_iff_eq, beq_iff_eq]
  exact apart first second owned other

mutual
theorem same_differ_timeless (apart : Apart P Q) :
    (first second : Value) → first.Sound P → second.Sound Q →
      same .differ first.timeless second.timeless = same .differ first second
  | list p xs, second, ⟨owned, sound⟩, other => by
    cases second with
    | list q ys =>
      simp only [timeless, same, apart.beq owned other.1, sameItems_agree_timeless xs ys,
        sameItems_differ_timeless apart xs ys sound other.2]
    | _ => rfl
  | map p xs, second, ⟨owned, _, sound⟩, other => by
    cases second with
    | map q ys =>
      simp only [timeless, same, apart.beq owned other.1, sameEntries_agree_timeless xs ys,
        sameEntries_differ_timeless apart xs ys sound other.2.2]
    | _ => rfl
  | null, second, _, _ | bool _, second, _, _ | int _, second, _, _ | float _, second, _, _
  | str _, second, _, _ | object _, second, _, _ | function _, second, _, _ => by
    cases second <;> rfl

theorem sameItems_differ_timeless (apart : Apart P Q) :
    (first second : List Value) → SoundItems P first → SoundItems Q second →
      sameItems .differ (timelessItems first) (timelessItems second) =
        sameItems .differ first second
  | [], [], _, _ | [], _ :: _, _, _ | _ :: _, [], _, _ => rfl
  | x :: xs, y :: ys, ⟨sound, others⟩, ⟨sound', others'⟩ => by
    simp only [timelessItems, sameItems, same_differ_timeless apart x y sound sound',
      sameItems_differ_timeless apart xs ys others others']

theorem sameEntries_differ_timeless (apart : Apart P Q) :
    (first second : List (String × Value)) → SoundEntries P first → SoundEntries Q second →
      sameEntries .differ (timelessEntries first) (timelessEntries second) =
        sameEntries .differ first second
  | [], [], _, _ | [], _ :: _, _, _ | _ :: _, [], _, _ => rfl
  | (_, x) :: xs, (_, y) :: ys, ⟨sound, others⟩, ⟨sound', others'⟩ => by
    simp only [timelessEntries, sameEntries, same_differ_timeless apart x y sound sound',
      sameEntries_differ_timeless apart xs ys others others']
end

theorem equal_timeless (apart : Apart P Q) {first second : Value} (sound : first.Sound P)
    (other : second.Sound Q) : first.timeless.equal second.timeless = first.equal second :=
  same_differ_timeless apart first second sound other

end Equality
end ChangeWatch.Value

namespace ChangeWatch.Place.Grown

/-- Different parts of a watched expression share given containers only. -/
theorem apart [Epoch] {detector index : Nat} {owner : Nat → List Nat}
    {path : List Nat} {first second : Nat} (different : first ≠ second) :
    Value.Apart (Grown (.ofBinding detector index) owner (first :: path))
      (Grown (.ofBinding detector index) owner (second :: path)) := by
  intro left right owned other
  constructor
  · intro same
    have both : left.Given ↔ right.Given := by
      rw [← given_timeless left, same, given_timeless]
    by_cases given : left.Given
    · have givenRight : right.Given := both.mp given
      rwa [timeless_of_given given, timeless_of_given givenRight] at same
    · have grown := owned.resolve_left given
      have otherGrown := other.resolve_left (mt both.mpr given)
      have shared := otherGrown.timeless
      rw [← same] at shared
      exact (disjoint different grown.timeless shared).elim
  · exact congrArg Place.timeless

end ChangeWatch.Place.Grown
