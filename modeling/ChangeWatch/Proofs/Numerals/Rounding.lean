import ChangeWatch.Number.Shortest
import Mathlib

/-!
The shortest decimal of a float tells the float. It lies among the reals that round to the float, and no
real rounds to two floats.
-/
namespace ChangeWatch

namespace Parts

/-- Parts as floats have them: the significand has its full length unless the exponent is the least. -/
structure Regular (p : Parts) : Prop where
  least : -1074 ≤ p.exponent
  most : p.exponent ≤ 972
  short : p.significand < 2 ^ 53
  full : -1074 < p.exponent → 2 ^ 52 ≤ p.significand

theorem regular_ofFloat (x : Float) : (ofFloat x).Regular := by
  have bound := x.toBits.toNat_lt
  simp only [ofFloat]
  generalize x.toBits.toNat = bits at bound
  have field := Nat.mod_lt (bits / Nat.pow 2 52) (show 0 < Nat.pow 2 11 by decide)
  have fraction := Nat.mod_lt bits (show 0 < Nat.pow 2 52 by decide)
  simp only [Nat.pow_eq] at field fraction ⊢
  constructor <;> simp only <;> (try split) <;> omega

/-- A float is known by its parts. -/
theorem ofFloat_injective : Function.Injective ofFloat := by
  intro x y same
  have bits : x.toBits.toNat = y.toBits.toNat := by
    have bound := x.toBits.toNat_lt
    have bound' := y.toBits.toNat_lt
    simp only [ofFloat, Nat.pow_eq, Parts.mk.injEq, decide_eq_decide] at same
    generalize x.toBits.toNat = bits at bound same ⊢
    generalize y.toBits.toNat = bits' at bound' same ⊢
    obtain ⟨sign, significand, exponent⟩ := same
    split at significand <;> split at significand <;> omega
  obtain ⟨⟨_, _⟩⟩ := x
  obtain ⟨⟨_, _⟩⟩ := y
  have words : _ = _ := UInt64.toNat_inj.mp bits
  simp only [Float.toBits] at words
  subst words
  rfl

/-- A quarter of the distance between neighbours. -/
def quarter (p : Parts) : ℚ := 2 ^ (p.exponent - 2)

/-- How many quarters the reals that round to a positive float reach below it. -/
def reach (p : Parts) : ℕ := if p.significand = 2 ^ 52 ∧ -1074 < p.exponent then 1 else 2

/-- A real rounds to a positive float. Halfway between two floats it rounds to the even one. -/
structure Near (p : Parts) (v : ℚ) : Prop where
  low : (4 * p.significand - p.reach) * p.quarter ≤ v
  high : v ≤ (4 * p.significand + 2) * p.quarter
  inside : p.significand % 2 = 1 →
    (4 * p.significand - p.reach) * p.quarter < v ∧ v < (4 * p.significand + 2) * p.quarter

variable {p q : Parts} {v : ℚ}

theorem quarter_pos (p : Parts) : 0 < p.quarter := zpow_pos (by norm_num) _

theorem reach_le (p : Parts) : p.reach ≤ 2 := by
  unfold reach
  split <;> decide

/-- Of two floats with the same exponent, the reals that round to the smaller one come first. -/
theorem near_same (same : p.exponent = q.exponent) (regular : p.Regular)
    (less : p.significand < q.significand) (near : p.Near v) (other : q.Near v) : False := by
  have units : p.quarter = q.quarter := by rw [quarter, quarter, same]
  have long : q.reach = 2 := by
    refine if_neg fun short => ?_
    have := regular.full (same ▸ short.2)
    omega
  have low := other.low
  have high := near.high
  have positive := q.quarter_pos
  rw [units] at high
  rw [long] at low
  have whole : (4 * q.significand : ℚ) - 2 ≤ 4 * p.significand + 2 :=
    le_of_mul_le_mul_right (by simpa using low.trans high) positive
  have apart : q.significand ≤ p.significand + 1 := by
    have : (4 * q.significand : ℚ) ≤ 4 * p.significand + 4 := by linarith
    exact_mod_cast (by linarith : (q.significand : ℚ) ≤ p.significand + 1)
  have next : q.significand = p.significand + 1 := by omega
  -- The real is halfway between two neighbours, and one of them is odd.
  have half : (4 * q.significand - 2) * q.quarter = (4 * p.significand + 2) * q.quarter := by
    rw [next]
    push_cast
    ring
  rcases Nat.mod_two_eq_zero_or_one p.significand with even | odd
  · have strict := (other.inside (by omega)).1
    rw [long, Nat.cast_ofNat, half] at strict
    exact absurd high (not_le.mpr strict)
  · have strict := (near.inside odd).2
    rw [units, ← half] at strict
    exact absurd low (not_le.mpr (by simpa using strict))

/-- Of two floats with different exponents, the reals that round to the one with the smaller come first. -/
theorem near_apart (less : p.exponent < q.exponent) (regular : p.Regular) (regular' : q.Regular)
    (near : p.Near v) (other : q.Near v) : False := by
  have full := regular'.full (lt_of_le_of_lt regular.least less)
  have short := regular.short
  have positive := p.quarter_pos
  have double : 2 * p.quarter ≤ q.quarter := by
    rw [quarter, quarter, ← zpow_one_add₀ (by norm_num)]
    exact zpow_le_zpow_right₀ (by norm_num) (by omega)
  -- The lower end for the second float is at least what it is for the least one with its exponent.
  have least : (2 ^ 54 - 1 : ℚ) ≤ 4 * q.significand - q.reach := by
    rcases Nat.lt_or_ge (2 ^ 52) q.significand with more | most
    · have reach : (q.reach : ℚ) ≤ 2 := by exact_mod_cast q.reach_le
      have more : (2 ^ 52 + 1 : ℚ) ≤ q.significand := by exact_mod_cast more
      linarith
    · have exact_full : q.significand = 2 ^ 52 := le_antisymm most full
      have reach : q.reach = 1 := if_pos ⟨exact_full, lt_of_le_of_lt regular.least less⟩
      rw [reach, exact_full]
      norm_num
  have below : (4 * p.significand + 2 : ℚ) ≤ 2 * (2 ^ 54 - 1) := by
    have : (p.significand : ℚ) + 1 ≤ 2 ^ 53 := by exact_mod_cast short
    linarith
  have bound : (2 ^ 54 - 1 : ℚ) * (2 * p.quarter) ≤ v :=
    calc (2 ^ 54 - 1 : ℚ) * (2 * p.quarter) ≤ (4 * q.significand - q.reach) * q.quarter :=
          mul_le_mul least double (by positivity) (by linarith)
      _ ≤ v := other.low
  have ends : (4 * p.significand + 2 : ℚ) * p.quarter ≤ (2 ^ 54 - 1 : ℚ) * (2 * p.quarter) := by
    calc (4 * p.significand + 2 : ℚ) * p.quarter ≤ (2 * (2 ^ 54 - 1)) * p.quarter :=
          mul_le_mul_of_nonneg_right below positive.le
      _ = (2 ^ 54 - 1 : ℚ) * (2 * p.quarter) := by ring
  rcases Nat.mod_two_eq_zero_or_one p.significand with even | odd
  · -- An even significand is not the largest one.
    have fewer : (4 * p.significand + 2 : ℚ) < 2 * (2 ^ 54 - 1) := by
      have : p.significand + 2 ≤ 2 ^ 53 := by omega
      have : (p.significand : ℚ) + 2 ≤ 2 ^ 53 := by exact_mod_cast this
      linarith
    have strict : (4 * p.significand + 2 : ℚ) * p.quarter < 2 * (2 ^ 54 - 1) * p.quarter :=
      mul_lt_mul_of_pos_right fewer positive
    have high := near.high
    linarith
  · have strict := (near.inside odd).2
    linarith

/-- No real rounds to two floats. -/
theorem Near.unique (regular : p.Regular) (regular' : q.Regular) (near : p.Near v)
    (other : q.Near v) : p.significand = q.significand ∧ p.exponent = q.exponent := by
  rcases lt_trichotomy p.exponent q.exponent with less | same | more
  · exact (near_apart less regular regular' near other).elim
  · rcases lt_trichotomy p.significand q.significand with less | equal | more
    · exact (near_same same regular less near other).elim
    · exact ⟨equal, same⟩
    · exact (near_same same.symm regular' more other near).elim
  · exact (near_apart more regular' regular other near).elim

end Parts
end ChangeWatch
