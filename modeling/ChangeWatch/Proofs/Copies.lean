import ChangeWatch.Proofs.Integers.Conversion

/-!
Copies of values. A copy of a list or map holds the same and is another container. Identity does not tell a
value from one with copies in it. Equality tells them apart in one case only: two operands that hold a NaN are
equal if they share the containers that hold it, and are not if one of these has been copied.
-/
namespace ChangeWatch.Value

/-- Where copies of lists and maps are put, by the path to each of them, innermost step first. A container
that has no such place is not copied. -/
abbrev Plan := List Nat → Option Place

mutual
/-- The value in which lists and maps are replaced by copies, as planned. -/
def copied (plan : Plan) (path : List Nat) : Value → Value
  | list place items => list ((plan path).getD place) (copiedItems plan path 0 items)
  | map place entries => map ((plan path).getD place) (copiedEntries plan path 0 entries)
  | value => value

def copiedItems (plan : Plan) (path : List Nat) (index : Nat) : List Value → List Value
  | [] => []
  | item :: items => copied plan (index :: path) item :: copiedItems plan path (index + 1) items

def copiedEntries (plan : Plan) (path : List Nat) (index : Nat) :
    List (String × Value) → List (String × Value)
  | [] => []
  | (name, value) :: entries =>
    (name, copied plan (index :: path) value) :: copiedEntries plan path (index + 1) entries
end

mutual
/-- The places of all lists and maps in a value. -/
def places : Value → List Place
  | list place items => place :: placesOfItems items
  | map place entries => place :: placesOfEntries entries
  | _ => []

def placesOfItems : List Value → List Place
  | [] => []
  | item :: items => item.places ++ placesOfItems items

def placesOfEntries : List (String × Value) → List Place
  | [] => []
  | (_, value) :: entries => value.places ++ placesOfEntries entries
end

mutual
/-- A NaN is the value or is somewhere in its lists and maps. -/
def holdsNaN : Value → Bool
  | float x => x.isNaN
  | list _ items => itemsHoldNaN items
  | map _ entries => entriesHoldNaN entries
  | _ => false

def itemsHoldNaN : List Value → Bool
  | [] => false
  | item :: items => item.holdsNaN || itemsHoldNaN items

def entriesHoldNaN : List (String × Value) → Bool
  | [] => false
  | (_, value) :: entries => value.holdsNaN || entriesHoldNaN entries
end

section Contents

mutual
theorem copied_none (path : List Nat) : (value : Value) → value.copied (fun _ => none) path = value
  | list place items => congrArg (list place) (copiedItems_none path 0 items)
  | map place entries => congrArg (map place) (copiedEntries_none path 0 entries)
  | null | bool _ | int _ | float _ | str _ | object _ | function _ => rfl

theorem copiedItems_none (path : List Nat) (index : Nat) : (items : List Value) →
    copiedItems (fun _ => none) path index items = items
  | [] => rfl
  | item :: items => by
    rw [copiedItems, copied_none _ item, copiedItems_none path (index + 1) items]

theorem copiedEntries_none (path : List Nat) (index : Nat) : (entries : List (String × Value)) →
    copiedEntries (fun _ => none) path index entries = entries
  | [] => rfl
  | (name, value) :: entries => by
    rw [copiedEntries, copied_none _ value, copiedEntries_none path (index + 1) entries]
end

mutual
/-- Copies hold the same. -/
@[simp] theorem holdsNaN_copied (plan : Plan) (path : List Nat) : (value : Value) →
    (value.copied plan path).holdsNaN = value.holdsNaN
  | list _ items => itemsHoldNaN_copied plan path 0 items
  | map _ entries => entriesHoldNaN_copied plan path 0 entries
  | null | bool _ | int _ | float _ | str _ | object _ | function _ => rfl

theorem itemsHoldNaN_copied (plan : Plan) (path : List Nat) (index : Nat) : (items : List Value) →
    itemsHoldNaN (copiedItems plan path index items) = itemsHoldNaN items
  | [] => rfl
  | item :: items => by
    simp only [copiedItems, itemsHoldNaN, holdsNaN_copied plan _ item,
      itemsHoldNaN_copied plan path (index + 1) items]

theorem entriesHoldNaN_copied (plan : Plan) (path : List Nat) (index : Nat) :
    (entries : List (String × Value)) →
      entriesHoldNaN (copiedEntries plan path index entries) = entriesHoldNaN entries
  | [] => rfl
  | (name, value) :: entries => by
    simp only [copiedEntries, entriesHoldNaN, holdsNaN_copied plan _ value,
      entriesHoldNaN_copied plan path (index + 1) entries]
end

variable (plan plan' : Plan)

mutual
/-- Identity does not tell a copy from what was copied. -/
theorem identical_copied (path path' : List Nat) : (v w : Value) →
    same .agree (v.copied plan path) (w.copied plan' path') = same .agree v w
  | list p xs, w => by
    cases w with
    | list q ys => simpa only [copied, same_list_agree] using identicalItems_copied path path' 0 0 xs ys
    | _ => rfl
  | map p xs, w => by
    cases w with
    | map q ys => simpa only [copied, same_map_agree] using identicalEntries_copied path path' 0 0 xs ys
    | _ => rfl
  | null, w | bool _, w | int _, w | float _, w | str _, w | object _, w | function _, w => by
    cases w <;> rfl

theorem identicalItems_copied (path path' : List Nat) (index index' : Nat) : (xs ys : List Value) →
    sameItems .agree (copiedItems plan path index xs) (copiedItems plan' path' index' ys) =
      sameItems .agree xs ys
  | [], [] | [], _ :: _ | _ :: _, [] => rfl
  | x :: xs, y :: ys => by
    simp only [copiedItems, sameItems, identical_copied (index :: path) (index' :: path') x y,
      identicalItems_copied path path' (index + 1) (index' + 1) xs ys]

theorem identicalEntries_copied (path path' : List Nat) (index index' : Nat) :
    (xs ys : List (String × Value)) →
      sameEntries .agree (copiedEntries plan path index xs) (copiedEntries plan' path' index' ys) =
        sameEntries .agree xs ys
  | [], [] | [], _ :: _ | _ :: _, [] => rfl
  | (_, x) :: xs, (_, y) :: ys => by
    simp only [copiedEntries, sameEntries, identical_copied (index :: path) (index' :: path') x y,
      identicalEntries_copied path path' (index + 1) (index' + 1) xs ys]
end

theorem sameFloat_of_not_nan {x y : Float} (clean : x.isNaN = false) :
    sameFloat .differ x y = sameFloat .agree x y := by
  simp only [sameFloat, clean, Bool.and_false, Bool.false_and]

mutual
/-- Without NaN, equality goes by contents alone and is identity. -/
theorem equal_of_clean : (v w : Value) → v.holdsNaN = false → same .differ v w = same .agree v w
  | int a, w, _ => by
    cases w with
    | float y => exact sameFloat_of_not_nan (floatOfInt_not_nan a)
    | _ => rfl
  | float x, w, clean => by
    cases w with
    | int b => exact sameFloat_of_not_nan clean
    | float y => exact sameFloat_of_not_nan clean
    | _ => rfl
  | list p xs, w, clean => by
    cases w with
    | list q ys => simp only [same, equalItems_of_clean xs ys clean]
    | _ => rfl
  | map p xs, w, clean => by
    cases w with
    | map q ys => simp only [same, equalEntries_of_clean xs ys clean]
    | _ => rfl
  | null, w, _ | bool _, w, _ | str _, w, _ | object _, w, _ | function _, w, _ => by cases w <;> rfl

theorem equalItems_of_clean : (xs ys : List Value) → itemsHoldNaN xs = false →
    sameItems .differ xs ys = sameItems .agree xs ys
  | [], ys, _ => by cases ys <;> rfl
  | _ :: _, [], _ => rfl
  | x :: xs, y :: ys, clean => by
    obtain ⟨first, others⟩ := Bool.or_eq_false_iff.mp clean
    rw [sameItems, sameItems, equal_of_clean x y first, equalItems_of_clean xs ys others]

theorem equalEntries_of_clean : (xs ys : List (String × Value)) → entriesHoldNaN xs = false →
    sameEntries .differ xs ys = sameEntries .agree xs ys
  | [], ys, _ => by cases ys <;> rfl
  | _ :: _, [], _ => rfl
  | (_, x) :: xs, (_, y) :: ys, clean => by
    obtain ⟨first, others⟩ := Bool.or_eq_false_iff.mp clean
    rw [sameEntries, sameEntries, equal_of_clean x y first, equalEntries_of_clean xs ys others]
end

end Contents

/-- A plan that puts every copy at a place of its own where nothing has been. -/
structure Plan.Allocates (plan : Plan) (used : List Place) : Prop where
  unused : ∀ path place, plan path = some place → place ∉ used
  once : ∀ path path' place, plan path = some place → plan path' = some place → path = path'

/-- Plans for two operands that put every copy at a place of its own where nothing has been. -/
structure Fresh (plan plan' : Plan) (used : List Place) : Prop where
  left : plan.Allocates used
  right : plan'.Allocates used
  apart : ∀ path path' place, plan path = some place → plan' path' ≠ some place

/-- Containers that are one after copying have been one before. -/
theorem Fresh.same {plan plan' : Plan} {used : List Place} (fresh : Fresh plan plan' used)
    {p q : Place} (known : p ∈ used) (known' : q ∈ used) {path path' : List Nat}
    (together : (plan path).getD p = (plan' path').getD q) : p = q := by
  cases here : plan path with
  | none =>
    cases there : plan' path' with
    | none => simpa only [here, there, Option.getD_none] using together
    | some place =>
      simp only [here, there, Option.getD_none, Option.getD_some] at together
      exact absurd (together ▸ known) (fresh.right.unused _ _ there)
  | some place =>
    cases there : plan' path' with
    | none =>
      simp only [here, there, Option.getD_none, Option.getD_some] at together
      exact absurd (together ▸ known') (fresh.left.unused _ _ here)
    | some place' =>
      simp only [here, there, Option.getD_some] at together
      exact absurd (together ▸ there) (fresh.apart _ _ _ here)

section Sharing

variable {plan plan' : Plan} {used : List Place}

mutual
/-- Copying makes nothing equal. -/
theorem equal_of_copied (fresh : Fresh plan plan' used) (path path' : List Nat) :
    (v w : Value) → v.places ⊆ used → w.places ⊆ used →
      same .differ (v.copied plan path) (w.copied plan' path') = true → same .differ v w = true
  | list p xs, w, known, known', equal => by
    cases w with
    | list q ys =>
      obtain ⟨here, within⟩ := List.cons_subset.mp known
      obtain ⟨here', within'⟩ := List.cons_subset.mp known'
      simp only [copied, same, Bool.or_eq_true, Bool.and_eq_true, beq_iff_eq] at equal ⊢
      refine equal.imp (fun shared => ⟨fresh.same here here' shared.1, ?_⟩) ?_
      · rw [← identicalItems_copied plan plan' path path' 0 0]
        exact shared.2
      · exact equalItems_of_copied fresh path path' 0 0 xs ys within within'
    | _ => exact equal
  | map p xs, w, known, known', equal => by
    cases w with
    | map q ys =>
      obtain ⟨here, within⟩ := List.cons_subset.mp known
      obtain ⟨here', within'⟩ := List.cons_subset.mp known'
      simp only [copied, same, Bool.or_eq_true, Bool.and_eq_true, beq_iff_eq] at equal ⊢
      refine equal.imp (fun shared => ⟨fresh.same here here' shared.1, ?_⟩) ?_
      · rw [← identicalEntries_copied plan plan' path path' 0 0]
        exact shared.2
      · exact equalEntries_of_copied fresh path path' 0 0 xs ys within within'
    | _ => exact equal
  | null, w, _, _, equal | bool _, w, _, _, equal | int _, w, _, _, equal | float _, w, _, _, equal
  | str _, w, _, _, equal | object _, w, _, _, equal | function _, w, _, _, equal => by
    cases w <;> exact equal

theorem equalItems_of_copied (fresh : Fresh plan plan' used) (path path' : List Nat) (index index' : Nat) :
    (xs ys : List Value) → placesOfItems xs ⊆ used → placesOfItems ys ⊆ used →
    sameItems .differ (copiedItems plan path index xs) (copiedItems plan' path' index' ys) = true →
      sameItems .differ xs ys = true
  | [], ys, _, _, equal => by
    cases ys <;> exact equal
  | _ :: _, [], _, _, equal => equal
  | x :: xs, y :: ys, known, known', equal => by
    obtain ⟨here, within⟩ := List.append_subset.mp known
    obtain ⟨here', within'⟩ := List.append_subset.mp known'
    simp only [copiedItems, sameItems, Bool.and_eq_true] at equal ⊢
    exact ⟨equal_of_copied fresh _ _ x y here here' equal.1,
      equalItems_of_copied fresh path path' _ _ xs ys within within' equal.2⟩

theorem equalEntries_of_copied (fresh : Fresh plan plan' used) (path path' : List Nat) (index index' : Nat) :
    (xs ys : List (String × Value)) → placesOfEntries xs ⊆ used → placesOfEntries ys ⊆ used →
    sameEntries .differ (copiedEntries plan path index xs) (copiedEntries plan' path' index' ys) = true →
      sameEntries .differ xs ys = true
  | [], ys, _, _, equal => by
    cases ys <;> exact equal
  | _ :: _, [], _, _, equal => equal
  | (_, x) :: xs, (_, y) :: ys, known, known', equal => by
    obtain ⟨here, within⟩ := List.append_subset.mp known
    obtain ⟨here', within'⟩ := List.append_subset.mp known'
    simp only [copiedEntries, sameEntries, Bool.and_eq_true] at equal ⊢
    exact ⟨⟨equal.1.1, equal_of_copied fresh _ _ x y here here' equal.1.2⟩,
      equalEntries_of_copied fresh path path' _ _ xs ys within within' equal.2⟩
end

theorem clean_of_sameFloat {x y : Float} (equal : sameFloat .differ x y = true) : x.isNaN = false := by
  have compared : (x == y) = true := by
    simpa only [sameFloat, show (NaNs.differ == NaNs.agree) = false from rfl, Bool.false_and,
      Bool.or_false] using equal
  change (x.toModel.unpack.compare y.toModel.unpack == some .eq) = true at compared
  change x.toModel.unpack.isNaN = false
  cases shape : x.toModel.unpack with
  | notANumber =>
    rw [shape] at compared
    cases compared
  | _ => rfl

mutual
/-- A value of which everything is copied shares nothing and is equal by its contents alone, which NaN is
not. -/
theorem clean_of_equal (allocates : plan.Allocates used) (all : ∀ path, plan path ≠ none)
    (path : List Nat) : (v w : Value) → w.places ⊆ used →
    same .differ (v.copied plan path) w = true → v.holdsNaN = false
  | int _, _, _, _ | null, _, _, _ | bool _, _, _, _ | str _, _, _, _ | object _, _, _, _
  | function _, _, _, _ => rfl
  | float x, w, _, equal => by
    cases w with
    | int b => exact clean_of_sameFloat equal
    | float y => exact clean_of_sameFloat equal
    | _ => cases equal
  | list p xs, w, known, equal => by
    cases w with
    | list q ys =>
      obtain ⟨here, within⟩ := List.cons_subset.mp known
      obtain ⟨place, new⟩ := Option.ne_none_iff_exists'.mp (all path)
      have other : place ≠ q := by
        rintro rfl
        exact allocates.unused _ _ new here
      simp only [copied, same, new, Option.getD_some, beq_eq_false_iff_ne.mpr other, Bool.false_and,
        Bool.false_or] at equal
      exact clean_of_equalItems allocates all path 0 xs ys within equal
    | _ => cases equal
  | map p xs, w, known, equal => by
    cases w with
    | map q ys =>
      obtain ⟨here, within⟩ := List.cons_subset.mp known
      obtain ⟨place, new⟩ := Option.ne_none_iff_exists'.mp (all path)
      have other : place ≠ q := by
        rintro rfl
        exact allocates.unused _ _ new here
      simp only [copied, same, new, Option.getD_some, beq_eq_false_iff_ne.mpr other, Bool.false_and,
        Bool.false_or] at equal
      exact clean_of_equalEntries allocates all path 0 xs ys within equal
    | _ => cases equal

theorem clean_of_equalItems (allocates : plan.Allocates used) (all : ∀ path, plan path ≠ none)
    (path : List Nat) (index : Nat) : (xs ys : List Value) → placesOfItems ys ⊆ used →
    sameItems .differ (copiedItems plan path index xs) ys = true → itemsHoldNaN xs = false
  | [], _, _, _ => rfl
  | _ :: _, [], _, equal => by cases equal
  | x :: xs, y :: ys, known, equal => by
    obtain ⟨here, within⟩ := List.append_subset.mp known
    obtain ⟨first, others⟩ := Bool.and_eq_true_iff.mp equal
    exact Bool.or_eq_false_iff.mpr ⟨clean_of_equal allocates all _ x y here first,
      clean_of_equalItems allocates all path _ xs ys within others⟩

theorem clean_of_equalEntries (allocates : plan.Allocates used) (all : ∀ path, plan path ≠ none)
    (path : List Nat) (index : Nat) : (xs ys : List (String × Value)) → placesOfEntries ys ⊆ used →
    sameEntries .differ (copiedEntries plan path index xs) ys = true → entriesHoldNaN xs = false
  | [], _, _, _ => rfl
  | _ :: _, [], _, equal => by cases equal
  | (_, x) :: xs, (_, y) :: ys, known, equal => by
    obtain ⟨here, within⟩ := List.append_subset.mp known
    obtain ⟨first, others⟩ := Bool.and_eq_true_iff.mp equal
    obtain ⟨-, first⟩ := Bool.and_eq_true_iff.mp first
    exact Bool.or_eq_false_iff.mpr ⟨clean_of_equal allocates all _ x y here first,
      clean_of_equalEntries allocates all path _ xs ys within others⟩
end

/-- There are always more places. -/
theorem exists_unused (used : List Place) : ∃ bound, ∀ n, bound ≤ n → Place.host n ∉ used := by
  induction used with
  | nil => exact ⟨0, fun _ _ => List.not_mem_nil⟩
  | cons place used ih =>
    obtain ⟨bound, unused⟩ := ih
    cases place with
    | host m =>
      refine ⟨max bound (m + 1), fun n beyond member => ?_⟩
      rcases List.mem_cons.mp member with same | later
      · cases same
        omega
      · exact unused n (by omega) later
    | _ =>
      refine ⟨bound, fun n beyond member => ?_⟩
      rcases List.mem_cons.mp member with same | later
      · cases same
      · exact unused n beyond later

theorem exists_allocates (used : List Place) :
    ∃ plan : Plan, plan.Allocates used ∧ ∀ path, plan path ≠ none := by
  obtain ⟨bound, unused⟩ := exists_unused used
  refine ⟨fun path => some (.host (bound + Encodable.encode path)), ⟨?_, ?_⟩, fun path => nofun⟩
  · intro path place new
    cases new
    exact unused _ (Nat.le_add_right _ _)
  · intro path path' place new new'
    have same : bound + Encodable.encode path = bound + Encodable.encode path' :=
      Place.host.inj (Option.some.inj (new.trans new'.symm))
    exact Encodable.encode_injective (Nat.add_left_cancel same)

end Sharing

/-- The operators that ask for equality. -/
def equalities : List BinaryOp := [.equal, .notEqual, .strictEqual, .strictNotEqual]

/-- Fresh copies of lists and maps in the operands change no comparison, exactly if the operands are not equal
with a NaN in them. -/
theorem comparison_of_copies_iff (v w : Value) :
    (∀ plan plan' : Plan, Fresh plan plan' (v.places ++ w.places) →
      (v.copied plan []).equal (w.copied plan' []) = v.equal w ∧
        ∀ op ∈ equalities, op.apply (v.copied plan []) (w.copied plan' []) = op.apply v w) ↔
      ¬ (v.equal w = true ∧ v.holdsNaN = true) := by
  constructor
  · -- A copy of everything on one side shares nothing with the other side.
    rintro unchanged ⟨equal, dirty⟩
    obtain ⟨plan, allocates, all⟩ := exists_allocates (v.places ++ w.places)
    have fresh : Fresh plan (fun _ => none) (v.places ++ w.places) :=
      ⟨allocates, ⟨nofun, nofun⟩, fun _ _ _ _ => nofun⟩
    have copied := (unchanged plan _ fresh).1
    rw [copied_none, equal] at copied
    have clean := clean_of_equal allocates all [] v w (List.subset_append_right _ _) copied
    rw [dirty] at clean
    cases clean
  · intro harmless plan plan' fresh
    have same : (v.copied plan []).equal (w.copied plan' []) = v.equal w := by
      cases dirty : v.holdsNaN with
      | false =>
        have clean : (v.copied plan []).holdsNaN = false := by rw [holdsNaN_copied, dirty]
        rw [equal, equal, equal_of_clean _ _ clean, equal_of_clean _ _ dirty, identical_copied]
      | true =>
        -- The operands differ, and copying makes nothing equal.
        have different (equal : v.equal w = true) : False := harmless ⟨equal, dirty⟩
        rw [Bool.eq_false_of_not_eq_true different]
        refine Bool.eq_false_of_not_eq_true fun equal => different ?_
        exact equal_of_copied fresh [] [] v w (List.subset_append_left _ _)
          (List.subset_append_right _ _) equal
    refine ⟨same, fun op equality => ?_⟩
    simp only [equalities, List.mem_cons, List.not_mem_nil, or_false] at equality
    rcases equality with rfl | rfl | rfl | rfl <;> simp only [BinaryOp.apply, BinaryOp.result?, same]

/-- The plan that copies the outermost container only. -/
def rootCopy : Plan := fun path => if path = [] then some (.host 1) else none

theorem fresh_rootCopy : Fresh (fun _ => none) rootCopy [.host 0, .host 0] := by
  have root {path : List Nat} {place : Place} (new : rootCopy path = some place) :
      path = [] ∧ place = .host 1 := by
    unfold rootCopy at new
    split at new
    · rename_i here
      cases new
      exact ⟨here, rfl⟩
    · cases new
  refine ⟨⟨nofun, nofun⟩, ⟨?_, ?_⟩, nofun⟩
  · intro path place new
    rw [(root new).2]
    decide
  · intro path path' place new new'
    rw [(root new).1, (root new').1]

/-- A list without NaN is equal to its copy as it is to itself. -/
theorem comparison_of_copies_iff_list :
    Fresh (fun _ => none) rootCopy [.host 0, .host 0] ∧
      (list (.host 0) [float 0.5]).equal (list (.host 1) [float 0.5]) =
        (list (.host 0) [float 0.5]).equal (list (.host 0) [float 0.5]) := by
  have clean : (list (.host 0) [float 0.5]).holdsNaN = false := rfl
  have harmless : ¬ ((list (.host 0) [float 0.5]).equal (list (.host 0) [float 0.5]) = true ∧
      (list (.host 0) [float 0.5]).holdsNaN = true) := by
    rintro ⟨-, dirty⟩
    rw [clean] at dirty
    cases dirty
  have unchanged := (comparison_of_copies_iff _ _).mpr harmless (fun _ => none) rootCopy fresh_rootCopy
  exact ⟨fresh_rootCopy, unchanged.1⟩

/-- A list that holds a NaN is equal to itself and not to a copy of it. -/
theorem copies_decide : ¬ ∀ (v w : Value) (plan plan' : Plan), Fresh plan plan' (v.places ++ w.places) →
    (v.copied plan []).equal (w.copied plan' []) = v.equal w := by
  intro unchanged
  have same := unchanged (.list (.host 0) [.float (0.0 / 0.0)]) (.list (.host 0) [.float (0.0 / 0.0)])
    (fun _ => none) rootCopy fresh_rootCopy
  exact Bool.noConfusion (same : false = true)

end ChangeWatch.Value
