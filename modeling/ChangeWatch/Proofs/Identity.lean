import ChangeWatch.Value.Equality

/-!
Laws of the identity that decides whether a watched value changed: every value is identical to itself,
and which of two values comes first does not matter.
-/
namespace ChangeWatch.Value

open Float.Model (UnpackedFloat)

/-- A float that differs from itself is NaN. -/
theorem sameFloat_self (x : Float) : sameFloat .agree x x = true := by
  have compared : x == x || x.isNaN := by
    change (x.toModel.unpack.compare x.toModel.unpack == some .eq) || x.toModel.unpack.isNaN
    cases x.toModel.unpack with
    | notANumber => rfl
    | infinity sign => cases sign <;> rfl
    | zero sign => rfl
    | finite sign significand exponent positive =>
      have exponents : compare exponent exponent = .eq := Std.ReflCmp.compare_self
      have significands : compare significand significand = .eq := Std.ReflCmp.compare_self
      have both : (compare exponent exponent).then (compare significand significand) = .eq := by
        rw [exponents, significands]
        rfl
      cases sign with
      | positive =>
        change (some ((compare exponent exponent).then (compare significand significand)) ==
          some .eq) || _
        rw [both]
        rfl
      | negative =>
        change (some ((compare exponent exponent).then (compare significand significand)).swap ==
          some .eq) || _
        rw [both]
        rfl
  simpa [sameFloat] using compared

mutual
theorem identical_self : (value : Value) → same .agree value value = true
  | null => rfl
  | bool b => by simp only [same, BEq.rfl]
  | int n => by simp only [same, BEq.rfl]
  | float x => by simp only [same, sameFloat_self]
  | str s => by simp only [same, BEq.rfl]
  | list place items => by simp only [same, items_self items, Bool.or_true]
  | map place entries => by simp only [same, entries_self entries, Bool.or_true]
  | object ref => by simp only [same, BEq.rfl]
  | function ref => by simp only [same, BEq.rfl]

theorem items_self : (items : List Value) → sameItems .agree items items = true
  | [] => rfl
  | item :: items => by simp only [sameItems, identical_self item, items_self items, Bool.and_true]

theorem entries_self : (entries : List (String × Value)) → sameEntries .agree entries entries = true
  | [] => rfl
  | (name, value) :: entries => by
    simp only [sameEntries, BEq.rfl, identical_self value, entries_self entries, Bool.and_true]
end

theorem compare_swap (x y : UnpackedFloat) : y.compare x = (x.compare y).map Ordering.swap := by
  have finite {m n : Nat} {e f : Int} : (compare f e).then (compare n m) =
      ((compare e f).then (compare m n)).swap := by
    rw [Ordering.swap_then, Int.compare_swap, Nat.compare_swap]
  cases x <;> cases y
  case finite.finite first _ _ _ second _ _ _ =>
    cases first <;> cases second
    · exact congrArg some (congrArg Ordering.swap finite)
    · rfl
    · rfl
    · exact congrArg some finite
  case infinity.infinity first second => cases first <;> cases second <;> rfl
  case infinity.zero first _ => cases first <;> rfl
  case infinity.finite first _ _ _ _ => cases first <;> rfl
  case zero.infinity _ second => cases second <;> rfl
  case finite.infinity _ _ _ _ second => cases second <;> rfl
  case zero.finite _ second _ _ _ => cases second <;> rfl
  case finite.zero first _ _ _ _ => cases first <;> rfl
  all_goals rfl

theorem float_beq_comm (x y : Float) : (x == y) = (y == x) := by
  change (x.toModel.unpack.compare y.toModel.unpack == some .eq) =
    (y.toModel.unpack.compare x.toModel.unpack == some .eq)
  rw [compare_swap y.toModel.unpack]
  cases y.toModel.unpack.compare x.toModel.unpack with
  | none => rfl
  | some order => cases order <;> rfl

theorem sameFloat_comm (nans : NaNs) (x y : Float) : sameFloat nans x y = sameFloat nans y x := by
  rw [sameFloat, sameFloat, float_beq_comm, Bool.and_assoc, Bool.and_assoc, Bool.and_comm x.isNaN]

mutual
theorem same_comm (nans : NaNs) : (v w : Value) → same nans v w = same nans w v
  | null, w => by cases w <;> rfl
  | bool a, w => by cases w <;> simp only [same, BEq.comm]
  | int a, w => by cases w <;> simp only [same, BEq.comm, sameFloat_comm]
  | float x, w => by cases w <;> simp only [same, sameFloat_comm]
  | str s, w => by cases w <;> simp only [same, BEq.comm]
  | list place items, w => by
    cases w with
    | list other items' =>
      simp only [same]
      rw [BEq.comm, sameItems_comm .agree items, sameItems_comm nans items]
    | _ => rfl
  | map place entries, w => by
    cases w with
    | map other entries' =>
      simp only [same]
      rw [BEq.comm, sameEntries_comm .agree entries, sameEntries_comm nans entries]
    | _ => rfl
  | object ref, w => by cases w <;> simp only [same, BEq.comm]
  | function ref, w => by cases w <;> simp only [same, BEq.comm]

theorem sameItems_comm (nans : NaNs) : (xs ys : List Value) →
    sameItems nans xs ys = sameItems nans ys xs
  | [], ys => by cases ys <;> rfl
  | x :: xs, ys => by
    cases ys with
    | nil => rfl
    | cons y ys => simp only [sameItems, same_comm nans x y, sameItems_comm nans xs ys]

theorem sameEntries_comm (nans : NaNs) : (xs ys : List (String × Value)) →
    sameEntries nans xs ys = sameEntries nans ys xs
  | [], ys => by cases ys <;> rfl
  | (j, x) :: xs, ys => by
    cases ys with
    | nil => rfl
    | cons y ys =>
      obtain ⟨k, y⟩ := y
      rw [sameEntries, sameEntries, BEq.comm, same_comm nans x y, sameEntries_comm nans xs ys]
end

theorem identical_comm (v w : Value) : v.identical w = w.identical v := same_comm .agree v w

/-- Identity does not look at places. -/
@[simp] theorem same_list_agree (p q : Place) (xs ys : List Value) :
    same .agree (list p xs) (list q ys) = sameItems .agree xs ys := by
  cases contents : sameItems .agree xs ys <;> simp [same, contents]

@[simp] theorem same_map_agree (p q : Place) (xs ys : List (String × Value)) :
    same .agree (map p xs) (map q ys) = sameEntries .agree xs ys := by
  cases contents : sameEntries .agree xs ys <;> simp [same, contents]

/-- Lists are the same if they are of one length and their items are the same in turn. -/
theorem sameItems_iff {nans : NaNs} {xs ys : List Value} :
    sameItems nans xs ys = true ↔ xs.length = ys.length ∧
      ∀ (index : Nat) (x y : Value), xs[index]? = some x → ys[index]? = some y →
        same nans x y = true := by
  induction xs generalizing ys with
  | nil => cases ys <;> simp [sameItems]
  | cons x xs ih =>
    cases ys with
    | nil => simp [sameItems]
    | cons y ys =>
      rw [sameItems, Bool.and_eq_true, ih, List.length_cons, List.length_cons, Nat.add_right_cancel_iff]
      constructor
      · rintro ⟨first, length, others⟩
        refine ⟨length, fun index x' y' here there => ?_⟩
        cases index with
        | zero =>
          cases here
          cases there
          exact first
        | succ index => exact others index x' y' here there
      · rintro ⟨length, all⟩
        exact ⟨all 0 x y rfl rfl, length, fun index => all (index + 1)⟩

end ChangeWatch.Value
