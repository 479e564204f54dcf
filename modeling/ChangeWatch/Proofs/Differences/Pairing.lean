import ChangeWatch.Pipe.ListDiff

/-!
How the items of a list are paired with those of an earlier one. Items choose one after the other, and
each takes the first free item that is identical to it. So an identical item before the chosen one, or
any at all if nothing was chosen, has been taken by an item further ahead.
-/
namespace ChangeWatch.ListDiff

variable {item : Value} {items : List Value} {free rest : List (Nat × Value)} {index place : Nat}
  {indexes : List (Option Nat)}

theorem take?_eq_none : take? item free = none ↔ ∀ entry ∈ free, entry.2.identical item = false := by
  induction free with
  | nil => simp [take?]
  | cons entry free ih =>
    obtain ⟨index, old⟩ := entry
    rw [take?, List.forall_mem_cons, ← ih]
    cases old.identical item <;> simp

/-- What is taken out is the first item identical to the given one. -/
theorem exists_of_take? (taken : take? item free = some (index, rest)) :
    ∃ left old right, free = left ++ (index, old) :: right ∧ rest = left ++ right ∧
      old.identical item = true ∧ ∀ entry ∈ left, entry.2.identical item = false := by
  induction free generalizing rest with
  | nil => cases taken
  | cons entry free ih =>
    obtain ⟨first, old⟩ := entry
    rw [take?] at taken
    cases same : old.identical item with
    | true =>
      rw [same, if_pos rfl, Option.some.injEq, Prod.mk.injEq] at taken
      obtain ⟨rfl, rfl⟩ := taken
      exact ⟨[], old, free, rfl, rfl, same, fun _ member => by cases member⟩
    | false =>
      rw [same, if_neg Bool.false_ne_true, Option.map_eq_some_iff] at taken
      obtain ⟨⟨found, others⟩, taken, outcome⟩ := taken
      obtain ⟨rfl, rfl⟩ := Prod.mk.inj outcome
      obtain ⟨left, old', right, rfl, rfl, same', earlier⟩ := ih taken
      exact ⟨(first, old) :: left, old', right, rfl, rfl, same',
        List.forall_mem_cons.mpr ⟨same, earlier⟩⟩

/-- The choices of items among free ones, and the items that stay free. -/
inductive Pairing : List (Nat × Value) → List Value → List (Option Nat) → List (Nat × Value) → Prop where
  | done (free : List (Nat × Value)) : Pairing free [] [] free
  | keep {left right rest : List (Nat × Value)} {index : Nat} {old item : Value} {items : List Value}
      {indexes : List (Option Nat)} (same : old.identical item = true)
      (earlier : ∀ entry ∈ left, entry.2.identical item = false)
      (others : Pairing (left ++ right) items indexes rest) :
      Pairing (left ++ (index, old) :: right) (item :: items) (some index :: indexes) rest
  | add {free rest : List (Nat × Value)} {item : Value} {items : List Value}
      {indexes : List (Option Nat)} (fresh : ∀ entry ∈ free, entry.2.identical item = false)
      (others : Pairing free items indexes rest) :
      Pairing free (item :: items) (none :: indexes) rest

theorem pairing (free : List (Nat × Value)) (items : List Value) :
    Pairing free items (pair free items).1 (pair free items).2 := by
  induction items generalizing free with
  | nil => exact .done free
  | cons item items ih =>
    rw [pair]
    cases taken : take? item free with
    | none => exact .add (take?_eq_none.mp taken) (ih free)
    | some choice =>
      obtain ⟨index, others⟩ := choice
      obtain ⟨left, old, right, rfl, rfl, same, earlier⟩ := exists_of_take? taken
      exact .keep same earlier (ih _)

section Without

variable {left right : List (Nat × Value)} {entry other : Nat × Value}

/-- Without an entry the others keep their order. -/
theorem sublist_without (left right : List (Nat × Value)) (entry : Nat × Value) :
    (left ++ right).Sublist (left ++ entry :: right) :=
  (List.sublist_cons_self entry right).append_left left

theorem mem_with : other ∈ left ++ entry :: right ↔ other = entry ∨ other ∈ left ++ right :=
  List.perm_middle.mem_iff.trans List.mem_cons

variable (ordered : (left ++ entry :: right).Pairwise fun first second => first.1 < second.1)
include ordered

/-- An entry comes behind those on its left and before those on its right. -/
theorem between_sides : (∀ other ∈ left, other.1 < entry.1) ∧ ∀ other ∈ right, entry.1 < other.1 := by
  obtain ⟨-, higher, lower⟩ := List.pairwise_append.mp ordered
  exact ⟨fun other member => lower other member entry List.mem_cons_self,
    (List.pairwise_cons.mp higher).1⟩

theorem ne_of_without (member : other ∈ left ++ right) : other.1 ≠ entry.1 := by
  obtain ⟨lower, higher⟩ := between_sides ordered
  rcases List.mem_append.mp member with member | member
  · exact Nat.ne_of_lt (lower other member)
  · exact Nat.ne_of_gt (higher other member)

end Without

namespace Pairing

/-- Every item makes one choice. -/
theorem length (pairing : Pairing free items indexes rest) : indexes.length = items.length := by
  induction pairing with
  | done => rfl
  | keep _ _ _ ih => exact congrArg Nat.succ ih
  | add _ _ ih => exact congrArg Nat.succ ih

/-- Items that choose nothing make up for free items that nothing chooses. -/
theorem balance (pairing : Pairing free items indexes rest) :
    free.length + indexes.count none = items.length + rest.length := by
  induction pairing with
  | done => simp
  | keep _ _ _ ih =>
    simp only [List.length_append, List.length_cons, List.count_cons] at ih ⊢
    simp only [reduceCtorEq, beq_iff_eq, if_false]
    omega
  | add _ _ ih =>
    simp only [List.length_cons, List.count_cons_self]
    omega

/-- What stays free keeps its order. -/
theorem sublist (pairing : Pairing free items indexes rest) : rest.Sublist free := by
  induction pairing with
  | done => exact .refl _
  | keep _ _ _ ih => exact ih.trans (sublist_without _ _ _)
  | add _ _ ih => exact ih

/-- A choice is a free item identical to the one that chooses. -/
theorem identical (pairing : Pairing free items indexes rest)
    (chosen : indexes[place]? = some (some index)) :
    ∃ old item, (index, old) ∈ free ∧ items[place]? = some item ∧ old.identical item = true := by
  induction pairing generalizing place with
  | done => cases chosen
  | @keep left right rest index old item items indexes same _ _ ih =>
    cases place with
    | zero =>
      cases chosen
      exact ⟨old, item, by simp, rfl, same⟩
    | succ place =>
      obtain ⟨old', item', member, there, same'⟩ := ih chosen
      exact ⟨old', item', (sublist_without _ _ _).subset member, there, same'⟩
  | add _ _ ih =>
    cases place with
    | zero => cases chosen
    | succ place => exact ih chosen

section Ordered

variable (pairing : Pairing free items indexes rest)
  (ordered : free.Pairwise fun first second => first.1 < second.1)
include pairing ordered

/-- No free item is chosen twice. -/
theorem injective {other : Nat} (chosen : indexes[place]? = some (some index))
    (again : indexes[other]? = some (some index)) : place = other := by
  induction pairing generalizing place other with
  | done => cases chosen
  | @keep left right rest first old item items indexes same _ others ih =>
    have fewer := ordered.sublist (sublist_without left right (first, old))
    -- What is taken out is not there for the items behind.
    have once (place : Nat) : indexes[place]? ≠ some (some first) := by
      intro chosen
      obtain ⟨_, _, member, -⟩ := others.identical chosen
      exact ne_of_without ordered member rfl
    rcases place with _ | place <;> rcases other with _ | other
    · rfl
    · cases chosen
      exact absurd again (once other)
    · cases again
      exact absurd chosen (once place)
    · exact congrArg Nat.succ (ih fewer chosen again)
  | add _ _ ih =>
    rcases place with _ | place
    · cases chosen
    · rcases other with _ | other
      · cases again
      · exact congrArg Nat.succ (ih ordered chosen again)

/-- Free items stay free unless they are chosen. -/
theorem mem_rest {entry : Nat × Value} (member : entry ∈ free) :
    entry ∈ rest ↔ ∀ place : Nat, indexes[place]? ≠ some (some entry.1) := by
  induction pairing with
  | done => simp [member]
  | @keep left right rest index old item items indexes same _ others ih =>
    have fewer := ordered.sublist (sublist_without left right (index, old))
    rcases mem_with.mp member with rfl | member
    · refine iff_of_false (fun stays => ?_) fun unchosen => unchosen 0 rfl
      exact ne_of_without ordered (others.sublist.subset stays) rfl
    · have apart := ne_of_without ordered member
      rw [ih fewer member]
      constructor
      · rintro unchosen (_ | place) chosen
        · cases chosen
          exact apart rfl
        · exact unchosen place chosen
      · exact fun unchosen place => unchosen (place + 1)
  | add _ others ih =>
    rw [ih ordered member]
    constructor
    · rintro unchosen (_ | place) chosen
      · cases chosen
      · exact unchosen place chosen
    · exact fun unchosen place => unchosen (place + 1)

/-- A free item identical to a choosing item, if the choice falls on none or on one behind it, has been
chosen by an item further ahead. -/
theorem passed {found : Option Nat} {entry : Nat × Value} (chosen : indexes[place]? = some found)
    (there : items[place]? = some item) (member : entry ∈ free)
    (same : entry.2.identical item = true) (behind : ∀ index, found = some index → entry.1 < index) :
    ∃ earlier < place, indexes[earlier]? = some (some entry.1) := by
  induction pairing generalizing place with
  | done => cases chosen
  | @keep left right rest index old first items indexes _ earlier others ih =>
    have fewer := ordered.sublist (sublist_without left right (index, old))
    cases place with
    | zero =>
      cases chosen
      cases there
      have before := behind index rfl
      obtain ⟨-, higher⟩ := between_sides ordered
      rcases mem_with.mp member with rfl | member
      · exact absurd before (Nat.lt_irrefl _)
      · rcases List.mem_append.mp member with member | member
        · cases (earlier entry member).symm.trans same
        · exact absurd (higher entry member) (Nat.lt_asymm before)
    | succ place =>
      rcases mem_with.mp member with rfl | member
      · exact ⟨0, Nat.succ_pos place, rfl⟩
      · obtain ⟨earlier, before, chosen⟩ := ih fewer chosen there member
        exact ⟨earlier + 1, Nat.succ_lt_succ before, chosen⟩
  | add fresh _ ih =>
    cases place with
    | zero =>
      cases there
      cases (fresh entry member).symm.trans same
    | succ place =>
      obtain ⟨earlier, before, chosen⟩ := ih ordered chosen there member
      exact ⟨earlier + 1, Nat.succ_lt_succ before, chosen⟩

end Ordered

end Pairing
end ChangeWatch.ListDiff
