import ChangeWatch.Proofs.Integers.Conversion

/-!
The order of integers. Equality compares integers as they are and the other relations compare their floats,
so different integers with one float are neither less nor equal nor greater. All other pairs are ordered.
-/
namespace ChangeWatch.BinaryOp

/-- The laws of the order of the integers, as far as the operators show them on two of them. -/
structure Ordered (a b : Int64) : Prop where
  less : BinaryOp.less.apply (.int a) (.int b) = .ok (.bool (decide (a.toInt < b.toInt)))
  greater : BinaryOp.greater.apply (.int a) (.int b) = .ok (.bool (decide (b.toInt < a.toInt)))
  lessEqual : BinaryOp.lessEqual.apply (.int a) (.int b) = .ok (.bool (decide (a.toInt ≤ b.toInt)))
  greaterEqual : BinaryOp.greaterEqual.apply (.int a) (.int b) = .ok (.bool (decide (b.toInt ≤ a.toInt)))
  one : ∃! op, op ∈ [BinaryOp.less, .equal, .greater] ∧ op.apply (.int a) (.int b) = .ok (.bool true)
  either : BinaryOp.lessEqual.apply (.int a) (.int b) = .ok (.bool true) ↔
    BinaryOp.less.apply (.int a) (.int b) = .ok (.bool true) ∨
      BinaryOp.equal.apply (.int a) (.int b) = .ok (.bool true)

/-- The operators that ask for an order. -/
def relations : List BinaryOp := [.less, .greater, .lessEqual, .greaterEqual]

variable {a b : Int64} {op : BinaryOp}

/-- Integers are related as the floats nearest to them. -/
theorem apply_relation (op : BinaryOp) (relation : op ∈ relations) (a b : Int64) :
    op.apply (.int a) (.int b) =
      .ok (.bool (op.meets (compare (nearestInt a.toInt) (nearestInt b.toInt)))) := by
  have related : op.relate (.int a) (.int b) =
      some (.bool (op.meets (compare (nearestInt a.toInt) (nearestInt b.toInt)))) := by
    simp only [relate, Value.asFloat?, compareFloats_int, Option.any_some]
  simp only [relations, List.mem_cons, List.not_mem_nil, or_false] at relation
  rcases relation with rfl | rfl | rfl | rfl <;> simp only [apply, result?, related]

theorem apply_equal (a b : Int64) :
    BinaryOp.equal.apply (.int a) (.int b) = .ok (.bool (decide (a.toInt = b.toInt))) := by
  simp only [apply, result?, Value.equal, Value.same, Int64.toInt_inj]
  rfl

/-- What the relations make of the order of two integers. -/
theorem meets_compare (m n : Int) :
    BinaryOp.less.meets (compare m n) = decide (m < n) ∧
      BinaryOp.greater.meets (compare m n) = decide (n < m) ∧
      BinaryOp.lessEqual.meets (compare m n) = decide (m ≤ n) ∧
      BinaryOp.greaterEqual.meets (compare m n) = decide (n ≤ m) := by
  rcases lt_trichotomy m n with below | rfl | above
  · rw [Int.compare_eq_lt.mpr below]
    simp [meets, below, below.le, not_lt_of_gt below, not_le_of_gt below]
  · rw [Int.compare_eq_eq.mpr rfl]
    simp [meets]
  · rw [Int.compare_eq_gt.mpr above]
    simp [meets, above, above.le, not_lt_of_gt above, not_le_of_gt above]

/-- The operator that says which of the three orders two operands are in. -/
def ofOrdering : Ordering → BinaryOp
  | .lt => .less
  | .eq => .equal
  | .gt => .greater

theorem ofOrdering_mem (order : Ordering) : ofOrdering order ∈ [BinaryOp.less, .equal, .greater] := by
  cases order <;> decide

theorem ofOrdering_inj {first second : Ordering} : ofOrdering first = ofOrdering second ↔ first = second := by
  cases first <;> cases second <;> decide

theorem holds_iff
    (less : BinaryOp.less.apply (.int a) (.int b) = .ok (.bool (decide (a.toInt < b.toInt))))
    (greater : BinaryOp.greater.apply (.int a) (.int b) = .ok (.bool (decide (b.toInt < a.toInt))))
    (member : op ∈ [BinaryOp.less, .equal, .greater]) :
    op.apply (.int a) (.int b) = .ok (.bool true) ↔ op = ofOrdering (compare a.toInt b.toInt) := by
  simp only [List.mem_cons, List.not_mem_nil, or_false] at member
  rcases member with rfl | rfl | rfl
  · change _ ↔ ofOrdering .lt = _
    rw [less, ofOrdering_inj, eq_comm (a := Ordering.lt), Int.compare_eq_lt]
    simp
  · change _ ↔ ofOrdering .eq = _
    rw [apply_equal, ofOrdering_inj, eq_comm (a := Ordering.eq), Int.compare_eq_eq]
    simp
  · change _ ↔ ofOrdering .gt = _
    rw [greater, ofOrdering_inj, eq_comm (a := Ordering.gt), Int.compare_eq_gt]
    simp

/-- Integers are ordered if their floats are in the same order. -/
theorem ordered_of_kept
    (kept : compare (nearestInt a.toInt) (nearestInt b.toInt) = compare a.toInt b.toInt) : Ordered a b := by
  obtain ⟨below, above, upTo, downTo⟩ := meets_compare a.toInt b.toInt
  have less := apply_relation .less (by decide) a b
  have greater := apply_relation .greater (by decide) a b
  have lessEqual := apply_relation .lessEqual (by decide) a b
  have greaterEqual := apply_relation .greaterEqual (by decide) a b
  rw [kept] at less greater lessEqual greaterEqual
  rw [below] at less
  rw [above] at greater
  rw [upTo] at lessEqual
  rw [downTo] at greaterEqual
  refine ⟨less, greater, lessEqual, greaterEqual, ?_, ?_⟩
  · refine ⟨ofOrdering (compare a.toInt b.toInt), ⟨ofOrdering_mem _, ?_⟩, ?_⟩
    · exact (holds_iff less greater (ofOrdering_mem _)).mpr rfl
    · rintro op ⟨member, holds⟩
      exact (holds_iff less greater member).mp holds
  · rw [less, lessEqual, apply_equal]
    simp [le_iff_lt_or_eq]

/-- Rounding keeps the order of equal integers and of those that it keeps apart. -/
theorem compare_nearestInt {m n : Int} (apart : m = n ∨ nearestInt m ≠ nearestInt n) :
    compare (nearestInt m) (nearestInt n) = compare m n := by
  rcases lt_trichotomy m n with below | rfl | above
  · have different := apart.resolve_left below.ne
    rw [Int.compare_eq_lt.mpr below]
    exact Int.compare_eq_lt.mpr (lt_of_le_of_ne (nearestInt_mono below.le) different)
  · rw [Int.compare_eq_eq.mpr rfl, Int.compare_eq_eq.mpr rfl]
  · have different := apart.resolve_left above.ne'
    rw [Int.compare_eq_gt.mpr above]
    exact Int.compare_eq_gt.mpr (lt_of_le_of_ne (nearestInt_mono above.le) different.symm)

/-- Integers are compared for equality as they are and for their order as the floats nearest to them. This
is the order of the integers, exactly if they are equal or have different floats. -/
theorem ordered_iff (a b : Int64) :
    (∀ op ∈ relations, op.apply (.int a) (.int b) =
      .ok (.bool (op.meets (compare (nearestInt a.toInt) (nearestInt b.toInt))))) ∧
    (Ordered a b ↔ a = b ∨ nearestInt a.toInt ≠ nearestInt b.toInt) := by
  refine ⟨fun op relation => apply_relation op relation a b, fun ordered => ?_, fun apart => ?_⟩
  · by_contra collapsed
    obtain ⟨different, same⟩ := not_or.mp collapsed
    rw [not_not] at same
    have equal : compare (nearestInt a.toInt) (nearestInt b.toInt) = .eq := Int.compare_eq_eq.mpr same
    have notLess := ordered.less
    have notGreater := ordered.greater
    rw [apply_relation .less (by decide), equal] at notLess
    rw [apply_relation .greater (by decide), equal] at notGreater
    simp [meets] at notLess notGreater
    exact different (Int64.toInt_inj.mp (le_antisymm notGreater notLess))
  · exact ordered_of_kept (compare_nearestInt (apart.imp_left (congrArg Int64.toInt)))

/-- Two integers beyond 53 bits that are halfway between floats and become different ones, and two that
become one. -/
theorem ordered_iff_halfway :
    Ordered 9007199254740993 9007199254740995 ∧
      BinaryOp.less ∈ relations ∧
      BinaryOp.less.apply (.int 9007199254740992) (.int 9007199254740993) = .ok (.bool false) := by
  have apart : nearestInt (9007199254740993 : Int64).toInt ≠ nearestInt (9007199254740995 : Int64).toInt := by
    decide +kernel
  have equal : nearestInt (9007199254740992 : Int64).toInt = nearestInt (9007199254740993 : Int64).toInt := by
    decide +kernel
  have relation : BinaryOp.less ∈ relations := by decide
  refine ⟨(ordered_iff 9007199254740993 9007199254740995).2.mpr (.inr apart), relation, ?_⟩
  rw [(ordered_iff 9007199254740992 9007199254740993).1 .less relation, equal, Int.compare_eq_eq.mpr rfl]
  rfl

/-- Integers that fit 53 bits are ordered. -/
theorem ordered_of_small (small : a.toInt.natAbs ≤ 2 ^ 53) (small' : b.toInt.natAbs ≤ 2 ^ 53) :
    Ordered a b := by
  refine ordered_of_kept ?_
  rw [nearestInt_exact small, nearestInt_exact small']

/-- The first integer that has no float has that of its neighbour, and is not known to be greater. -/
theorem order_is_lost : ¬ ∀ a b : Int64, Ordered a b := by
  intro all
  have less := (all 9007199254740992 9007199254740993).less
  rw [apply_relation .less (by decide)] at less
  have equal : nearestInt (9007199254740992 : Int64).toInt = nearestInt (9007199254740993 : Int64).toInt := by
    decide +kernel
  rw [equal, Int.compare_eq_eq.mpr rfl] at less
  cases less

end ChangeWatch.BinaryOp
