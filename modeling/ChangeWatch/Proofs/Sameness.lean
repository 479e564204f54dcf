import ChangeWatch.Detector.Record
import ChangeWatch.Proofs.Copies

/-!
Identity is sound for telling whether a watched value changed. It is coarser than equality, and by no more
than NaN; it does not tell copies apart; and asking whether two containers are the same one before comparing
their contents makes no difference to it.
-/
namespace ChangeWatch.Value

theorem identical_of_sameFloat {x y : Float} (equal : sameFloat .differ x y = true) :
    sameFloat .agree x y = true := by
  have compared : (x == y) = true := by
    simpa only [sameFloat, show (NaNs.differ == NaNs.agree) = false from rfl, Bool.false_and,
      Bool.or_false] using equal
  rw [sameFloat, compared, Bool.true_or]

mutual
/-- What is equal is identical. -/
theorem identical_of_equal : (v w : Value) → same .differ v w = true → same .agree v w = true
  | int a, w, equal => by
    cases w with
    | float y => exact identical_of_sameFloat equal
    | _ => exact equal
  | float x, w, equal => by
    cases w with
    | int b => exact identical_of_sameFloat equal
    | float y => exact identical_of_sameFloat equal
    | _ => exact equal
  | list p xs, w, equal => by
    cases w with
    | list q ys =>
      simp only [same, Bool.or_eq_true, Bool.and_eq_true] at equal
      rw [same_list_agree]
      exact equal.elim And.right (identicalItems_of_equal xs ys)
    | _ => exact equal
  | map p xs, w, equal => by
    cases w with
    | map q ys =>
      simp only [same, Bool.or_eq_true, Bool.and_eq_true] at equal
      rw [same_map_agree]
      exact equal.elim And.right (identicalEntries_of_equal xs ys)
    | _ => exact equal
  | null, w, equal | bool _, w, equal | str _, w, equal | object _, w, equal | function _, w, equal => by
    cases w <;> exact equal

theorem identicalItems_of_equal : (xs ys : List Value) → sameItems .differ xs ys = true →
    sameItems .agree xs ys = true
  | [], ys, equal => by
    cases ys <;> exact equal
  | _ :: _, [], equal => equal
  | x :: xs, y :: ys, equal => by
    obtain ⟨first, others⟩ := Bool.and_eq_true_iff.mp equal
    exact Bool.and_eq_true_iff.mpr ⟨identical_of_equal x y first, identicalItems_of_equal xs ys others⟩

theorem identicalEntries_of_equal : (xs ys : List (String × Value)) → sameEntries .differ xs ys = true →
    sameEntries .agree xs ys = true
  | [], ys, equal => by
    cases ys <;> exact equal
  | _ :: _, [], equal => equal
  | (_, x) :: xs, (_, y) :: ys, equal => by
    obtain ⟨here, others⟩ := Bool.and_eq_true_iff.mp equal
    obtain ⟨name, first⟩ := Bool.and_eq_true_iff.mp here
    exact Bool.and_eq_true_iff.mpr ⟨Bool.and_eq_true_iff.mpr ⟨name, identical_of_equal x y first⟩,
      identicalEntries_of_equal xs ys others⟩
end

/-- One operand without NaN is enough for equality to be identity. -/
theorem equal_of_either_clean {v w : Value} (clean : v.holdsNaN = false ∨ w.holdsNaN = false) :
    v.equal w = v.identical w := by
  rcases clean with clean | clean
  · exact equal_of_clean v w clean
  · rw [equal, same_comm, equal_of_clean w v clean]
    exact same_comm .agree w v

section Shortcut

mutual
/-- The two equalities, with a place taken for the container that was made there: containers at one place are
the same, and their contents are not looked at. -/
def sameAt (nans : NaNs) : Value → Value → Bool
  | list p xs, list q ys => p == q || sameItemsAt nans xs ys
  | map p xs, map q ys => p == q || sameEntriesAt nans xs ys
  | v, w => same nans v w

def sameItemsAt (nans : NaNs) : List Value → List Value → Bool
  | [], [] => true
  | x :: xs, y :: ys => sameAt nans x y && sameItemsAt nans xs ys
  | _, _ => false

def sameEntriesAt (nans : NaNs) : List (String × Value) → List (String × Value) → Bool
  | [], [] => true
  | (j, x) :: xs, (k, y) :: ys => j == k && sameAt nans x y && sameEntriesAt nans xs ys
  | _, _ => false
end

mutual
/-- The lists and maps in a value, itself included. -/
def containers : Value → List Value
  | list place items => list place items :: containersOfItems items
  | map place entries => map place entries :: containersOfEntries entries
  | _ => []

def containersOfItems : List Value → List Value
  | [] => []
  | item :: items => item.containers ++ containersOfItems items

def containersOfEntries : List (String × Value) → List Value
  | [] => []
  | (_, value) :: entries => value.containers ++ containersOfEntries entries
end

/-- Two lists at one place are one list, and two maps are one map. -/
def Settled (v w : Value) : Prop :=
  ∀ place, (∀ xs ys, v = list place xs → w = list place ys → xs = ys) ∧
    ∀ xs ys, v = map place xs → w = map place ys → xs = ys

/-- Containers of one collection and of another have one content at each place. -/
def OneContent (firsts seconds : List Value) : Prop := ∀ v ∈ firsts, ∀ w ∈ seconds, Settled v w

namespace OneContent

variable {firsts seconds others others' : List Value} {v w : Value}

theorem mono (one : OneContent firsts seconds) (within : others ⊆ firsts) (within' : others' ⊆ seconds) :
    OneContent others others' :=
  fun v member w member' => one v (within member) w (within' member')

theorem head (one : OneContent (v :: firsts) (w :: seconds)) : Settled v w :=
  one v List.mem_cons_self w List.mem_cons_self

theorem tail (one : OneContent (v :: firsts) (w :: seconds)) : OneContent firsts seconds :=
  one.mono (List.subset_cons_self _ _) (List.subset_cons_self _ _)

theorem left (one : OneContent (firsts ++ others) (seconds ++ others')) : OneContent firsts seconds :=
  one.mono (List.subset_append_left _ _) (List.subset_append_left _ _)

theorem right (one : OneContent (firsts ++ others) (seconds ++ others')) : OneContent others others' :=
  one.mono (List.subset_append_right _ _) (List.subset_append_right _ _)

end OneContent

mutual
/-- A place stands for its container. -/
theorem sameAt_eq (nans : NaNs) : (v w : Value) → OneContent v.containers w.containers →
    sameAt nans v w = same nans v w
  | list p xs, w, one => by
    cases w with
    | list q ys =>
      rw [sameAt, same, sameItemsAt_eq nans xs ys one.tail]
      by_cases here : p = q
      · subst here
        obtain rfl := (one.head p).1 xs ys rfl rfl
        rw [BEq.rfl, items_self, Bool.true_or, Bool.true_and, Bool.true_or]
      · rw [beq_eq_false_iff_ne.mpr here, Bool.false_or, Bool.false_and, Bool.false_or]
    | _ => rfl
  | map p xs, w, one => by
    cases w with
    | map q ys =>
      rw [sameAt, same, sameEntriesAt_eq nans xs ys one.tail]
      by_cases here : p = q
      · subst here
        obtain rfl := (one.head p).2 xs ys rfl rfl
        rw [BEq.rfl, entries_self, Bool.true_or, Bool.true_and, Bool.true_or]
      · rw [beq_eq_false_iff_ne.mpr here, Bool.false_or, Bool.false_and, Bool.false_or]
    | _ => rfl
  | null, w, _ | bool _, w, _ | int _, w, _ | float _, w, _ | str _, w, _ | object _, w, _
  | function _, w, _ => by cases w <;> rfl

theorem sameItemsAt_eq (nans : NaNs) : (xs ys : List Value) →
    OneContent (containersOfItems xs) (containersOfItems ys) →
      sameItemsAt nans xs ys = sameItems nans xs ys
  | [], ys, _ => by cases ys <;> rfl
  | _ :: _, [], _ => rfl
  | x :: xs, y :: ys, one => by
    rw [sameItemsAt, sameItems, sameAt_eq nans x y one.left, sameItemsAt_eq nans xs ys one.right]

theorem sameEntriesAt_eq (nans : NaNs) : (xs ys : List (String × Value)) →
    OneContent (containersOfEntries xs) (containersOfEntries ys) →
      sameEntriesAt nans xs ys = sameEntries nans xs ys
  | [], ys, _ => by cases ys <;> rfl
  | _ :: _, [], _ => rfl
  | (_, x) :: xs, (_, y) :: ys, one => by
    rw [sameEntriesAt, sameEntries, sameAt_eq nans x y one.left, sameEntriesAt_eq nans xs ys one.right]
end

end Shortcut

/-- Identity is sound for dirty checks. It holds of a value and itself, whatever is in it, and does not
depend on which of two values comes first; equality implies it, and is the same without NaN; containers may
be replaced by copies in both operands, and may be recognised by their places. So what is remembered never
differs from itself or from a copy. -/
theorem identical_sound :
    (∀ v : Value, v.identical v = true) ∧
    (∀ v w : Value, v.identical w = w.identical v) ∧
    (∀ v w : Value, v.equal w = true → v.identical w = true) ∧
    (∀ v w : Value, v.holdsNaN = false ∨ w.holdsNaN = false → v.equal w = v.identical w) ∧
    (∀ (v w : Value) (plan plan' : Plan), (v.copied plan []).identical (w.copied plan' []) = v.identical w) ∧
    (∀ v w : Value, OneContent v.containers w.containers →
      sameAt .agree v w = v.identical w ∧ sameAt .differ v w = v.equal w) ∧
    ∀ (v : Value) (plan : Plan), (Cached.set v).differsFrom v = false ∧
      (Cached.set v).differsFrom (v.copied plan []) = false := by
  have self (v : Value) : v.identical v = true := identical_self v
  refine ⟨self, identical_comm, identical_of_equal, fun _ _ => equal_of_either_clean,
    fun v w plan plan' => identical_copied plan plan' [] [] v w,
    fun v w one => ⟨sameAt_eq .agree v w one, sameAt_eq .differ v w one⟩, fun v plan => ?_⟩
  have copy : v.identical (v.copied plan []) = true := by
    have same := identical_copied (fun _ => none) plan [] [] v v
    rw [copied_none] at same
    exact same.trans (self v)
  simp only [Cached.differsFrom, self, copy, Bool.not_true, and_self]

/-- A list with a NaN in it, and a map with an integer, compared with a copy and with a float. -/
theorem identical_sound_nested :
    (Cached.set (list (.host 0) [float (0.0 / 0.0)])).differsFrom (list (.host 1) [float (0.0 / 0.0)]) =
      false ∧
    (map (.host 0) [("a", int 5)]).equal (map (.host 1) [("a", float 5.0)]) = true ∧
    (map (.host 0) [("a", int 5)]).identical (map (.host 1) [("a", float 5.0)]) = true ∧
    (map (.host 0) [("a", int 5)]).equal (map (.host 0) [("a", float 5.0)]) =
      (map (.host 0) [("a", int 5)]).identical (map (.host 0) [("a", float 5.0)]) ∧
    sameAt .agree (list (.host 0) [float (0.0 / 0.0)]) (list (.host 0) [float (0.0 / 0.0)]) =
      (list (.host 0) [float (0.0 / 0.0)]).identical (list (.host 0) [float (0.0 / 0.0)]) := by
  obtain ⟨-, -, implied, coincides, -, shortcut, quiet⟩ := identical_sound
  have equal : (map (.host 0) [("a", int 5)]).equal (map (.host 1) [("a", float 5.0)]) = true := rfl
  have clean : (map (.host 0) [("a", int 5)]).holdsNaN = false := rfl
  have one : OneContent (list (.host 0) [float (0.0 / 0.0)]).containers
      (list (.host 0) [float (0.0 / 0.0)]).containers := by
    rintro v member w member' place
    obtain rfl := List.mem_singleton.mp member
    obtain rfl := List.mem_singleton.mp member'
    exact ⟨fun xs ys here there => (list.inj (here.symm.trans there)).2,
      fun xs ys here there => (map.inj (here.symm.trans there)).2⟩
  exact ⟨(quiet _ rootCopy).2, equal, implied _ _ equal, coincides _ _ (.inl clean), (shortcut _ _ one).1⟩

end ChangeWatch.Value
