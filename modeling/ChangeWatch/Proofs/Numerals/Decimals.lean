import ChangeWatch.Proofs.Numerals.Rounding

/-!
The search for the shortest decimal finds one that reads back. Each grid is tried on the float's rounding
interval, and the finest one is so fine that a neighbour of the float on it lies inside whatever it is.
-/
namespace ChangeWatch

namespace Decimal

/-- The number that a decimal stands for. -/
def value (d : Decimal) : ℚ := d.digits * 10 ^ d.exponent

end Decimal

namespace Shortest

variable {p : Parts} {k : Int} {n : ℕ} {tie : Tie}

theorem zpow_eq_div {base : ℚ} (nonzero : base ≠ 0) (n : ℤ) :
    base ^ n = base ^ n.toNat / base ^ (-n).toNat := by
  conv_lhs => rw [← Int.toNat_sub_toNat_neg n]
  rw [zpow_sub₀ nonzero, zpow_natCast, zpow_natCast]

/-- What a grid multiplies a number by, to have a whole one. -/
def unit (p : Parts) (k : Int) : ℚ := 2 ^ (2 - p.exponent).toNat * 10 ^ (-k).toNat

theorem unit_pos : 0 < unit p k := by
  unfold unit
  positivity

theorem quarters_eq (a : ℕ) :
    ((a * (2 ^ (p.exponent - 2).toNat * 10 ^ (-k).toNat) : ℕ) : ℚ) = a * p.quarter * unit p k := by
  rw [Parts.quarter, zpow_eq_div (by norm_num), Int.neg_sub, unit]
  push_cast
  field_simp

theorem point_eq (n : ℕ) :
    ((n * (2 ^ (2 - p.exponent).toNat * 10 ^ k.toNat) : ℕ) : ℚ) = n * 10 ^ k * unit p k := by
  rw [zpow_eq_div (by norm_num) k, unit]
  push_cast
  field_simp

theorem denominator_eq :
    (Interval.onGrid p k).denominator = 2 ^ (2 - p.exponent).toNat * 10 ^ k.toNat := by
  simp only [Interval.onGrid, Nat.pow_eq, Int.neg_sub]

theorem denominator_pos : 0 < (Interval.onGrid p k).denominator := by
  rw [denominator_eq]
  positivity

theorem value_eq :
    (Interval.onGrid p k).value = 4 * p.significand * (2 ^ (p.exponent - 2).toNat * 10 ^ (-k).toNat) := by
  simp only [Interval.onGrid, Nat.pow_eq]

theorem low_eq : (Interval.onGrid p k).low =
    (4 * p.significand - p.reach) * (2 ^ (p.exponent - 2).toNat * 10 ^ (-k).toNat) := by
  simp only [Interval.onGrid, Nat.pow_eq, Parts.reach]

theorem high_eq : (Interval.onGrid p k).high =
    (4 * p.significand + 2) * (2 ^ (p.exponent - 2).toNat * 10 ^ (-k).toNat) := by
  simp only [Interval.onGrid, Nat.pow_eq]

/-- The points of a grid that an interval contains are those that round to the float. -/
theorem near_of_contains (positive : 0 < p.significand)
    (contained : (Interval.onGrid p k).contains n = true) : p.Near (n * 10 ^ k) := by
  have bound : p.reach ≤ 4 * p.significand := p.reach_le.trans (by omega)
  have low : ((Interval.onGrid p k).low : ℚ) = (4 * p.significand - p.reach) * p.quarter * unit p k := by
    rw [low_eq, quarters_eq, Nat.cast_sub bound]
    push_cast
    rfl
  have high : ((Interval.onGrid p k).high : ℚ) = (4 * p.significand + 2) * p.quarter * unit p k := by
    rw [high_eq, quarters_eq]
    push_cast
    rfl
  have point : ((n * (Interval.onGrid p k).denominator : ℕ) : ℚ) = n * 10 ^ k * unit p k := by
    rw [denominator_eq, point_eq]
  have units : 0 < unit p k := unit_pos
  simp only [Interval.contains] at contained
  split at contained
  · rename_i even
    rw [Bool.and_eq_true, decide_eq_true_eq, decide_eq_true_eq] at contained
    rw [← Nat.cast_le (α := ℚ), ← Nat.cast_le (α := ℚ), low, high, point,
      mul_le_mul_iff_left₀ units, mul_le_mul_iff_left₀ units] at contained
    refine ⟨contained.1, contained.2, fun odd => ?_⟩
    simp [Interval.onGrid, odd] at even
  · rw [Bool.and_eq_true, decide_eq_true_eq, decide_eq_true_eq] at contained
    rw [← Nat.cast_lt (α := ℚ), ← Nat.cast_lt (α := ℚ), low, high, point,
      mul_lt_mul_iff_left₀ units, mul_lt_mul_iff_left₀ units] at contained
    exact ⟨contained.1.le, contained.2.le, fun _ => contained⟩

/-- The nearest neighbour is one of the two. -/
theorem nearest_neighbour (i : Interval) (tie : Tie) :
    i.nearest tie = i.value / i.denominator ∨ i.nearest tie = i.value / i.denominator + 1 := by
  simp only [Interval.nearest]
  split
  · exact .inl rfl
  · split
    · exact .inr rfl
    · cases tie with
      | up => exact .inr rfl
      | even =>
        simp only
        omega

theorem contains_of_hit {i : Interval} (hit : i.hit? tie = some n) : i.contains n = true := by
  simp only [Interval.hit?] at hit
  split at hit
  · rename_i below above
    cases hit
    rcases nearest_neighbour i tie with same | same
    · rw [same, below]
    · rw [same, above]
  · cases hit
    assumption
  · cases hit
    assumption
  · cases hit

/-- On a grid that is finer than the quarters of a float, both neighbours round to it. -/
theorem near_of_fine (fine : (10 : ℚ) ^ k < p.quarter)
    (neighbour : n = (Interval.onGrid p k).value / (Interval.onGrid p k).denominator ∨
      n = (Interval.onGrid p k).value / (Interval.onGrid p k).denominator + 1) :
    p.Near (n * 10 ^ k) := by
  have units : 0 < unit p k := unit_pos
  have value : ((Interval.onGrid p k).value : ℚ) = 4 * p.significand * p.quarter * unit p k := by
    rw [value_eq, quarters_eq]
    push_cast
    rfl
  have point (m : ℕ) : ((m * (Interval.onGrid p k).denominator : ℕ) : ℚ) = m * 10 ^ k * unit p k := by
    rw [denominator_eq, point_eq]
  have below := Nat.div_mul_le_self (Interval.onGrid p k).value (Interval.onGrid p k).denominator
  have above := Nat.lt_div_mul_add denominator_pos (a := (Interval.onGrid p k).value)
    (b := (Interval.onGrid p k).denominator)
  rw [← Nat.succ_mul] at above
  rw [← Nat.cast_le (α := ℚ), value, point, mul_le_mul_iff_left₀ units] at below
  rw [← Nat.cast_lt (α := ℚ), value, point, mul_lt_mul_iff_left₀ units] at above
  generalize (Interval.onGrid p k).value / (Interval.onGrid p k).denominator = m at *
  push_cast at above
  have reach : p.quarter ≤ p.reach * p.quarter := by
    have one : (1 : ℚ) ≤ p.reach := by
      unfold Parts.reach
      split <;> norm_num
    nlinarith [p.quarter_pos]
  have quarter := p.quarter_pos
  have ten : (0 : ℚ) < 10 ^ k := zpow_pos (by norm_num) k
  have inside : (4 * p.significand - p.reach) * p.quarter < n * 10 ^ k ∧
      n * 10 ^ k < (4 * p.significand + 2) * p.quarter := by
    rcases neighbour with rfl | rfl
    · constructor <;> nlinarith
    · push_cast
      constructor <;> nlinarith
  exact ⟨inside.1.le, inside.2.le, fun _ => inside⟩

/-- Powers of ten and of two, where the ratio of their exponents is nearly the logarithm. -/
theorem pow_ten_lt {c e : ℤ} (least : -1100 ≤ e) (most : e ≤ 1100) (ratio : 100000 * c ≤ 30103 * e) :
    (10 : ℚ) ^ c < 2 ^ (e + 8) := by
  rcases le_or_gt 0 c with whole | part
  · refine lt_of_pow_lt_pow_left₀ 3 (by positivity) ?_
    calc ((10 : ℚ) ^ c) ^ 3 = (10 ^ 3) ^ c := by
          rw [← zpow_natCast, ← zpow_natCast, ← zpow_mul, ← zpow_mul, mul_comm]
      _ ≤ (2 ^ 10) ^ c := zpow_le_zpow_left₀ whole (by norm_num) (by norm_num)
      _ = 2 ^ (10 * c) := by rw [← zpow_natCast, ← zpow_mul]; rfl
      _ < 2 ^ ((e + 8) * 3) := zpow_lt_zpow_right₀ (by norm_num) (by omega)
      _ = (2 ^ (e + 8)) ^ 3 := by rw [zpow_mul]; rfl
  · refine lt_of_pow_lt_pow_left₀ 10 (by positivity) ?_
    calc ((10 : ℚ) ^ c) ^ 10 = ((10 ^ 10) ^ (-c))⁻¹ := by
          rw [← zpow_natCast, ← zpow_natCast, ← zpow_mul, ← zpow_mul, ← zpow_neg]
          congr 1
          push_cast
          ring
      _ ≤ ((2 ^ 33) ^ (-c))⁻¹ := by
          gcongr
          · exact zpow_le_zpow_left₀ (by omega) (by norm_num) (by norm_num)
      _ = 2 ^ (33 * c) := by rw [← zpow_natCast, ← zpow_mul, ← zpow_neg]; congr 1; push_cast; ring
      _ < 2 ^ ((e + 8) * 10) := zpow_lt_zpow_right₀ (by norm_num) (by omega)
      _ = (2 ^ (e + 8)) ^ 10 := by rw [zpow_mul]; rfl

/-- The last grid is finer than the quarters of the float. -/
theorem finest (regular : p.Regular) : (10 : ℚ) ^ (ceiling p - 20) < p.quarter := by
  have short : p.significand.log2 ≤ 52 := by
    rcases Nat.eq_zero_or_pos p.significand with zero | positive
    · simp [zero]
    · exact Nat.lt_succ_iff.mp ((Nat.log2_lt positive.ne').mpr regular.short)
  have least := regular.least
  have most := regular.most
  generalize top : p.exponent + p.significand.log2 + 1 = e
  have split : ceiling p - 20 = e * 30103 / 100000 - 19 := by
    rw [ceiling, top]
    omega
  have powers := pow_ten_lt (c := e * 30103 / 100000) (e := e) (by omega) (by omega) (by omega)
  have tens : (10 : ℚ) ^ (e * 30103 / 100000) = 10 ^ (ceiling p - 20) * 10 ^ 19 := by
    rw [split, zpow_sub₀ (by norm_num)]
    norm_num
  have twos : (2 : ℚ) ^ (e + 8) = 2 ^ (e - 55) * 2 ^ 63 := by
    rw [← zpow_natCast, ← zpow_add₀ (by norm_num)]
    congr 1
    push_cast
    ring
  have quarter : (2 : ℚ) ^ (e - 55) ≤ p.quarter := zpow_le_zpow_right₀ (by norm_num) (by omega)
  rw [tens, twos] at powers
  have positive : (0 : ℚ) < 10 ^ (ceiling p - 20) := zpow_pos (by norm_num) _
  refine lt_of_lt_of_le ?_ quarter
  by_contra more
  have more : (2 : ℚ) ^ (e - 55) ≤ 10 ^ (ceiling p - 20) := not_lt.mp more
  have big : (2 : ℚ) ^ 63 ≤ 10 ^ 19 := by norm_num
  nlinarith

theorem near_of_search (positive : 0 < p.significand) {steps : ℕ}
    (fine : (10 : ℚ) ^ (k - steps) < p.quarter) : p.Near (search tie p steps k).value := by
  induction steps generalizing k with
  | zero =>
    rw [Nat.cast_zero, sub_zero] at fine
    exact near_of_fine fine (nearest_neighbour _ tie)
  | succ steps ih =>
    rw [search]
    split
    · rename_i digits hit
      exact near_of_contains positive (contains_of_hit hit)
    · refine ih ?_
      rwa [Nat.cast_succ, ← sub_sub, sub_right_comm] at fine

end Shortest

namespace Parts

variable {p q : Parts} {tie : Tie}

/-- The shortest decimal of a positive float reads back as it. -/
theorem near_shortest (tie : Tie) (regular : p.Regular) (positive : 0 < p.significand) :
    p.Near (p.shortest tie).value := by
  rw [shortest, if_neg positive.ne']
  exact Shortest.near_of_search positive (Shortest.finest regular)

theorem Near.pos {v : ℚ} (near : p.Near v) (positive : 0 < p.significand) : 0 < v := by
  refine lt_of_lt_of_le (mul_pos ?_ p.quarter_pos) near.low
  have reach : (p.reach : ℚ) ≤ 2 := by exact_mod_cast p.reach_le
  have one : (1 : ℚ) ≤ p.significand := by exact_mod_cast positive
  linarith

theorem shortest_zero (zero : p.significand = 0) : (p.shortest tie).value = 0 := by
  simp [shortest, zero, Decimal.value]

/-- Floats with one shortest decimal have one magnitude. -/
theorem shortest_injective (regular : p.Regular) (regular' : q.Regular)
    (same : (p.shortest tie).value = (q.shortest tie).value) :
    p.significand = q.significand ∧ p.exponent = q.exponent := by
  rcases Nat.eq_zero_or_pos p.significand with zero | positive <;>
    rcases Nat.eq_zero_or_pos q.significand with zero' | positive'
  · have least : ∀ {p : Parts}, p.Regular → p.significand = 0 → p.exponent = -1074 := by
      intro p regular zero
      by_contra other
      have := regular.full (lt_of_le_of_ne regular.least (Ne.symm other))
      omega
    exact ⟨zero.trans zero'.symm, (least regular zero).trans (least regular' zero').symm⟩
  · have := (near_shortest tie regular' positive').pos positive'
    rw [← same, shortest_zero zero] at this
    exact absurd this (lt_irrefl _)
  · have := (near_shortest tie regular positive).pos positive
    rw [same, shortest_zero zero'] at this
    exact absurd this (lt_irrefl _)
  · have other := near_shortest tie regular' positive'
    rw [← same] at other
    exact (near_shortest tie regular positive).unique regular regular' other

end Parts
end ChangeWatch
