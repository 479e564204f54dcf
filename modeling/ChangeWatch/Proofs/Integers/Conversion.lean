import ChangeWatch.Expr.Operators
import ChangeWatch.Proofs.Identity
import Mathlib

/-!
Integers as floats. An integer becomes the float nearest to it, ties to even: integers beyond 53 bits keep
their first 53 and lose the order among those that share them, and all others keep their value.
-/
namespace ChangeWatch

/-- A quotient, rounded to the nearest whole number; halfway between two of them, to the even one. -/
def roundedQuotient (n d : Nat) : Nat :=
  if 2 * (n % d) < d ∨ 2 * (n % d) = d ∧ n / d % 2 = 0 then n / d else n / d + 1

/-- The distance between the floats about a whole number, where it is a whole number itself. -/
def spacing (n : Nat) : Nat := 2 ^ (n.log2 - 52)

/-- The nearest whole number that is a float. -/
def nearestWhole (n : Nat) : Nat := roundedQuotient n (spacing n) * spacing n

/-- The nearest integer that is a float. -/
def nearestInt (n : Int) : Int := n.sign * nearestWhole n.natAbs

section Rounding

variable {m n d k : Nat}

theorem roundedQuotient_bounds (n d : Nat) :
    n / d ≤ roundedQuotient n d ∧ roundedQuotient n d ≤ n / d + 1 := by
  unfold roundedQuotient
  split <;> omega

theorem roundedQuotient_one (n : Nat) : roundedQuotient n 1 = n := by
  simp [roundedQuotient, Nat.mod_one]

theorem roundedQuotient_mono (less : m ≤ n) : roundedQuotient m d ≤ roundedQuotient n d := by
  rcases (Nat.div_le_div_right less (c := d)).lt_or_eq with apart | same
  · have last := (roundedQuotient_bounds m d).2
    have first := (roundedQuotient_bounds n d).1
    omega
  · have rests : m % d ≤ n % d := by
      have first := Nat.div_add_mod m d
      have second := Nat.div_add_mod n d
      rw [same] at first
      omega
    unfold roundedQuotient
    rw [same]
    split <;> split <;> omega

/-- A whole number is cut to 53 bits and may be rounded up to the next power of two. -/
theorem roundedQuotient_full (full : n.log2 = 52 + k) :
    2 ^ 52 ≤ roundedQuotient n (2 ^ k) ∧ roundedQuotient n (2 ^ k) ≤ 2 ^ 53 := by
  have positive : n ≠ 0 := by
    rintro rfl
    rw [Nat.log2_zero] at full
    omega
  obtain ⟨least, most⟩ := (Nat.log2_eq_iff positive).mp full
  have low : 2 ^ 52 ≤ n / 2 ^ k := by
    rwa [Nat.le_div_iff_mul_le (Nat.two_pow_pos k), ← Nat.pow_add]
  have high : n / 2 ^ k < 2 ^ 53 := by
    rwa [Nat.div_lt_iff_lt_mul (Nat.two_pow_pos k), ← Nat.pow_add, show 53 + k = 52 + k + 1 by omega]
  obtain ⟨first, last⟩ := roundedQuotient_bounds n (2 ^ k)
  omega

theorem nearestWhole_of_short (short : n.log2 ≤ 52) : nearestWhole n = n := by
  rw [nearestWhole, spacing, Nat.sub_eq_zero_of_le short, Nat.pow_zero, roundedQuotient_one, Nat.mul_one]

/-- A whole number and its float lie between the same powers of two. -/
theorem nearestWhole_bounds (positive : n ≠ 0) :
    2 ^ n.log2 ≤ nearestWhole n ∧ nearestWhole n ≤ 2 ^ (n.log2 + 1) := by
  rcases Nat.le_total n.log2 52 with short | long
  · rw [nearestWhole_of_short short]
    exact ⟨Nat.log2_self_le positive, Nat.lt_log2_self.le⟩
  · obtain ⟨k, full⟩ := Nat.exists_eq_add_of_le long
    obtain ⟨low, high⟩ := roundedQuotient_full full
    have unit : spacing n = 2 ^ k := by rw [spacing, full, Nat.add_sub_cancel_left]
    rw [nearestWhole, unit, full, Nat.pow_add, show 52 + k + 1 = 53 + k by omega, Nat.pow_add]
    exact ⟨Nat.mul_le_mul_right _ low, Nat.mul_le_mul_right _ high⟩

theorem nearestWhole_exact (small : n ≤ 2 ^ 53) : nearestWhole n = n := by
  rcases small.lt_or_eq with less | rfl
  · refine nearestWhole_of_short ?_
    rcases Nat.eq_zero_or_pos n with rfl | positive
    · decide
    · exact Nat.le_of_lt_succ ((Nat.log2_lt positive.ne').mpr less)
  · decide +kernel

theorem nearestWhole_mono (less : m ≤ n) : nearestWhole m ≤ nearestWhole n := by
  rcases Nat.eq_zero_or_pos m with rfl | positive
  · exact Nat.zero_le _
  have other : n ≠ 0 := by omega
  have lengths : m.log2 ≤ n.log2 :=
    (Nat.le_log2 other).mpr ((Nat.log2_self_le positive.ne').trans less)
  rcases lengths.lt_or_eq with shorter | same
  · exact (nearestWhole_bounds positive.ne').2.trans
      ((Nat.pow_le_pow_right (by decide) shorter).trans (nearestWhole_bounds other).1)
  · have units : spacing m = spacing n := by rw [spacing, spacing, same]
    rw [nearestWhole, nearestWhole, units]
    exact Nat.mul_le_mul_right _ (roundedQuotient_mono less)

theorem nearestInt_ofNat (n : Nat) : nearestInt n = nearestWhole n := by
  rcases Nat.eq_zero_or_pos n with rfl | positive
  · decide
  · rw [nearestInt, Int.sign_natCast_of_ne_zero positive.ne', Int.natAbs_natCast, one_mul]

theorem nearestInt_neg (n : Int) : nearestInt (-n) = -nearestInt n := by
  rw [nearestInt, nearestInt, Int.sign_neg, Int.natAbs_neg, neg_mul]

theorem nearestInt_exact {n : Int} (small : n.natAbs ≤ 2 ^ 53) : nearestInt n = n := by
  rw [nearestInt, nearestWhole_exact small, Int.sign_mul_natAbs]

/-- Rounding keeps the order, as far as it keeps numbers apart. -/
theorem nearestInt_mono {m n : Int} (less : m ≤ n) : nearestInt m ≤ nearestInt n := by
  have whole (n : Nat) : 0 ≤ nearestInt n := by
    rw [nearestInt_ofNat]
    exact Int.natCast_nonneg _
  obtain ⟨m, rfl | rfl⟩ := m.eq_nat_or_neg <;> obtain ⟨n, rfl | rfl⟩ := n.eq_nat_or_neg
  · rw [nearestInt_ofNat, nearestInt_ofNat]
    exact_mod_cast nearestWhole_mono (by omega)
  · have zero : (m : Int) = 0 := by omega
    have zero' : -(n : Int) = 0 := by omega
    rw [zero, zero']
  · rw [nearestInt_neg]
    have first := whole m
    have second := whole n
    omega
  · rw [nearestInt_neg, nearestInt_neg, nearestInt_ofNat, nearestInt_ofNat, neg_le_neg_iff]
    exact_mod_cast nearestWhole_mono (by omega)

end Rounding

open Float.Model (UnpackedFloat Format)
open Float.Model.UnpackedFloat (Sign Accuracy ExtendedMantissa)

section Shifting

/-- A whole number without its last bits: whether the first of those was set, and whether any other was. -/
structure ShiftedBy (count n : Nat) (em : ExtendedMantissa) : Prop where
  mantissa : em.mantissa = n / 2 ^ count
  roundBit : em.roundBit = decide (2 ^ count ≤ 2 * (n % 2 ^ count))
  stickyBit : em.stickyBit = decide (2 * (n % 2 ^ count) ≠ 0 ∧ 2 * (n % 2 ^ count) ≠ 2 ^ count)

theorem shiftedBy (count n : Nat) : ShiftedBy count n (ExtendedMantissa.mk n false false >>> count) := by
  induction count with
  | zero => constructor <;> simp [HShiftRight.hShiftRight, Nat.repeat, Nat.mod_one]
  | succ count ih =>
    have step : ExtendedMantissa.mk n false false >>> (count + 1) =
        ExtendedMantissa.shiftRightOne (ExtendedMantissa.mk n false false >>> count) := rfl
    have power : 2 ^ (count + 1) = 2 * 2 ^ count := Nat.pow_succ'
    have below := Nat.mod_lt n (Nat.two_pow_pos count)
    have rest : n % (2 * 2 ^ count) = n % 2 ^ count + 2 ^ count * (n / 2 ^ count % 2) := by
      rw [← power]
      exact Nat.mod_pow_succ
    have last : (n / 2 ^ count % 2 != 0) = decide (2 * 2 ^ count ≤ 2 * (n % (2 * 2 ^ count))) := by
      rw [rest, Bool.eq_iff_iff, bne_iff_ne, decide_eq_true_iff]
      rcases Nat.mod_two_eq_zero_or_one (n / 2 ^ count) with even | odd
      · rw [even]
        omega
      · rw [odd]
        omega
    have others : (decide (2 ^ count ≤ 2 * (n % 2 ^ count)) ||
        decide (2 * (n % 2 ^ count) ≠ 0 ∧ 2 * (n % 2 ^ count) ≠ 2 ^ count)) =
        decide (2 * (n % (2 * 2 ^ count)) ≠ 0 ∧ 2 * (n % (2 * 2 ^ count)) ≠ 2 * 2 ^ count) := by
      rw [rest, Bool.eq_iff_iff, Bool.or_eq_true, decide_eq_true_iff, decide_eq_true_iff,
        decide_eq_true_iff]
      rcases Nat.mod_two_eq_zero_or_one (n / 2 ^ count) with even | odd
      · rw [even]
        omega
      · rw [odd]
        omega
    rw [step]
    constructor
    · rw [ExtendedMantissa.shiftRightOne, ih.mantissa, Nat.div_div_eq_div_mul, Nat.pow_succ]
    · rw [ExtendedMantissa.shiftRightOne, ih.mantissa, power, last]
    · rw [ExtendedMantissa.shiftRightOne, ih.roundBit, ih.stickyBit, power, others]

theorem ShiftedBy.rounded {count n : Nat} {em : ExtendedMantissa} (shifted : ShiftedBy count n em) :
    em.roundedMantissa = roundedQuotient n (2 ^ count) := by
  obtain ⟨mantissa, roundBit, stickyBit⟩ := em
  obtain ⟨rfl, first, others⟩ := shifted
  have parity := Nat.mod_two_eq_zero_or_one (n / 2 ^ count)
  unfold roundedQuotient
  cases roundBit <;> cases stickyBit <;> simp at first others <;>
    simp only [ExtendedMantissa.roundedMantissa, ExtendedMantissa.accuracy, Accuracy.roundToNearestEven]
  all_goals split <;> omega

end Shifting

section Standing

/-- A float in its one form that stands for an integer: 53 bits and a power of two, not below the one that
makes them end behind the point by 52 bits. -/
inductive Stands : UnpackedFloat → Int → Prop where
  | zero (sign : Sign) : Stands (.zero sign) 0
  | finite {m : Nat} {e : Int} {n : Nat} (sign : Sign) (positive : 0 < m) (full : 2 ^ 52 ≤ m)
      (short : m < 2 ^ 53) (least : -52 ≤ e) (most : e ≤ 12)
      (value : m * 2 ^ (e + 52).toNat = n * 2 ^ 52) :
      Stands (.finite sign m e positive) (sign.apply n)

variable {f g : UnpackedFloat} {a b : Int} {m n k : Nat} {e : Int}

theorem Stands.neg (stands : Stands f a) : Stands f.neg (-a) := by
  cases stands with
  | zero sign => exact .zero _
  | finite sign positive full short least most value =>
    have opposite := Stands.finite (-sign) positive full short least most value
    cases sign with
    | positive => exact opposite
    | negative =>
      rw [show -(Sign.apply .negative _ : Int) = _ from neg_neg _]
      exact opposite

theorem Stands.not_nan (stands : Stands f a) : f.isNaN = false := by
  cases stands <;> rfl

/-- Of two floats of full length, the one with the greater exponent is greater. -/
theorem order_finite {m' n' : Nat} {e' : Int} (full : 2 ^ 52 ≤ m') (short : m < 2 ^ 53)
    (least : -52 ≤ e) (value : m * 2 ^ (e + 52).toNat = n * 2 ^ 52)
    (value' : m' * 2 ^ (e' + 52).toNat = n' * 2 ^ 52) (less : e < e') : n < n' := by
  obtain ⟨step, exponents⟩ : ∃ step, (e' + 52).toNat = (e + 52).toNat + 1 + step :=
    Nat.exists_eq_add_of_le (by omega)
  have grows : m * 2 ^ (e + 52).toNat < m' * 2 ^ (e' + 52).toNat :=
    calc m * 2 ^ (e + 52).toNat < 2 ^ 53 * 2 ^ (e + 52).toNat :=
          Nat.mul_lt_mul_of_pos_right short (Nat.two_pow_pos _)
      _ = 2 ^ 52 * 2 ^ ((e + 52).toNat + 1) := by ring
      _ ≤ m' * 2 ^ (e' + 52).toNat :=
          Nat.mul_le_mul full (Nat.pow_le_pow_right (by decide) (by omega))
  rw [value, value'] at grows
  exact Nat.lt_of_mul_lt_mul_right grows

theorem pos_of_value (full : 2 ^ 52 ≤ m) (value : m * 2 ^ (e + 52).toNat = n * 2 ^ 52) : 0 < n := by
  have positive : 0 < m * 2 ^ (e + 52).toNat := Nat.mul_pos (by omega) (Nat.two_pow_pos _)
  rw [value] at positive
  exact Nat.pos_of_mul_pos_right positive

theorem compare_finite {m' n' : Nat} {e' : Int} (full : 2 ^ 52 ≤ m) (short : m < 2 ^ 53)
    (least : -52 ≤ e) (value : m * 2 ^ (e + 52).toNat = n * 2 ^ 52) (full' : 2 ^ 52 ≤ m')
    (short' : m' < 2 ^ 53) (least' : -52 ≤ e') (value' : m' * 2 ^ (e' + 52).toNat = n' * 2 ^ 52) :
    (compare e e').then (compare m m') = compare n n' := by
  rcases lt_trichotomy e e' with less | rfl | more
  · rw [Int.compare_eq_lt.mpr less, Nat.compare_eq_lt.mpr (order_finite full' short least value value' less)]
    rfl
  · have unit := Nat.two_pow_pos (e + 52).toNat
    rw [Int.compare_eq_eq.mpr rfl, Ordering.eq_then]
    rcases lt_trichotomy m m' with less | rfl | more
    · have both := Nat.mul_lt_mul_of_pos_right less unit
      rw [value, value'] at both
      rw [Nat.compare_eq_lt.mpr less, Nat.compare_eq_lt.mpr (Nat.lt_of_mul_lt_mul_right both)]
    · have both := Nat.eq_of_mul_eq_mul_right (by decide) (value.symm.trans value')
      rw [Nat.compare_eq_eq.mpr rfl, Nat.compare_eq_eq.mpr both]
    · have both := Nat.mul_lt_mul_of_pos_right more unit
      rw [value, value'] at both
      rw [Nat.compare_eq_gt.mpr more, Nat.compare_eq_gt.mpr (Nat.lt_of_mul_lt_mul_right both)]
  · rw [Int.compare_eq_gt.mpr more, Nat.compare_eq_gt.mpr (order_finite full short' least' value' value more)]
    rfl

theorem compare_whole {x y : Int} (less : x < y ↔ m < n) (same : x = y ↔ m = n) :
    compare x y = compare m n := by
  rcases lt_trichotomy m n with below | equal | above
  · rw [Nat.compare_eq_lt.mpr below, Int.compare_eq_lt.mpr (less.mpr below)]
  · rw [Nat.compare_eq_eq.mpr equal, Int.compare_eq_eq.mpr (same.mpr equal)]
  · rw [Nat.compare_eq_gt.mpr above, Int.compare_eq_gt.mpr (by omega)]

/-- Floats that stand for integers are in the order of these. -/
theorem Stands.compare (stands : Stands f a) (other : Stands g b) : f.compare g = some (compare a b) := by
  cases stands with
  | zero sign =>
    cases other with
    | zero sign' => rfl
    | finite sign' _ full' _ _ _ value' =>
      have positive := pos_of_value full' value'
      cases sign' with
      | positive => exact congrArg some (Int.compare_eq_lt.mpr (by simp [Sign.apply]; omega)).symm
      | negative => exact congrArg some (Int.compare_eq_gt.mpr (by simp [Sign.apply]; omega)).symm
  | finite sign _ full short least _ value =>
    have positive := pos_of_value full value
    cases other with
    | zero sign' =>
      cases sign with
      | positive => exact congrArg some (Int.compare_eq_gt.mpr (by simp [Sign.apply]; omega)).symm
      | negative => exact congrArg some (Int.compare_eq_lt.mpr (by simp [Sign.apply]; omega)).symm
    | finite sign' _ full' short' least' _ value' =>
      have positive' := pos_of_value full' value'
      have magnitudes := compare_finite full short least value full' short' least' value'
      cases sign <;> cases sign'
      · refine congrArg some ?_
        rw [magnitudes, Nat.compare_swap]
        exact (compare_whole (by simp [Sign.apply]) (by simp [Sign.apply, eq_comm])).symm
      · exact congrArg some (Int.compare_eq_lt.mpr (by simp [Sign.apply]; omega)).symm
      · exact congrArg some (Int.compare_eq_gt.mpr (by simp [Sign.apply]; omega)).symm
      · refine congrArg some (magnitudes.trans ?_)
        exact (compare_whole (by simp [Sign.apply]) (by simp [Sign.apply])).symm

/-- A normal number is told by its bits. -/
theorem unpack_pack_finite {positive : 0 < m} (sign : Sign) (full : 2 ^ 52 ≤ m) (short : m < 2 ^ 53)
    (least : -52 ≤ e) (most : e ≤ 12) :
    UnpackedFloat.unpack .binary64 (UnpackedFloat.pack .binary64 (.finite sign m e positive)) =
      .finite sign m e positive := by
  have length : m.log2 = 52 := (Nat.log2_eq_iff positive.ne').mpr ⟨full, short⟩
  have biased : ((e + Format.binary64.exponentBias + Format.binary64.mantissaBitsWithoutImplicit).toNat : Int)
      = e + 1075 := by
    simp [Format.exponentBias]
    omega
  generalize shown : (e + Format.binary64.exponentBias + Format.binary64.mantissaBitsWithoutImplicit).toNat =
    exponent at biased
  have word : (BitVec.ofNat 11 exponent).toNat = exponent := by
    rw [BitVec.toNat_ofNat, Nat.mod_eq_of_lt (by omega)]
  have normal : UnpackedFloat.pack .binary64 (.finite sign m e positive) =
      UnpackedFloat.packComponents .binary64 sign (BitVec.ofNat 11 exponent) (BitVec.ofNat 52 m) := by
    simp only [UnpackedFloat.pack]
    rw [shown, if_neg (by simp; omega), if_pos (by rw [length]; rfl)]
  rw [normal, UnpackedFloat.unpack]
  simp only [UnpackedFloat.unpackExponent_packComponents, UnpackedFloat.unpackMantissa_packComponents,
    UnpackedFloat.unpackSign_packComponents, UnpackedFloat.Sign.ofBitVec_toBitVec]
  rw [if_neg, if_neg]
  · have significand : (1#1 ++ BitVec.ofNat 52 m).toNat = m := by
      have joined := Nat.two_pow_add_eq_or_of_lt (BitVec.ofNat 52 m).isLt 1
      rw [BitVec.toNat_append, Nat.shiftLeft_eq, BitVec.toNat_ofNat, Nat.mul_comm]
      rw [BitVec.toNat_ofNat] at joined ⊢
      rw [Nat.mod_eq_of_lt (by decide), ← joined]
      omega
    have power : ((BitVec.ofNat 11 exponent).toNat : Int) - (Format.binary64.exponentBias + 52) = e := by
      rw [word]
      simp [Format.exponentBias]
      omega
    congr
  · intro zero
    have := congrArg BitVec.toNat zero
    rw [word] at this
    simp at this
    omega
  · intro ones
    have := congrArg BitVec.toNat ones
    rw [word] at this
    simp at this
    omega

theorem Stands.unpack_pack (stands : Stands f a) :
    UnpackedFloat.unpack .binary64 (UnpackedFloat.pack .binary64 f) = f := by
  cases stands with
  | zero sign => cases sign <;> rfl
  | finite sign _ full short least most _ => exact unpack_pack_finite sign full short least most

theorem targetExponent_eq (m : Nat) (e : Int) :
    Format.binary64.targetExponent (Float.Model.totalExponent m e) = max (m.log2 + e - 52) (-1074) := by
  simp only [Format.targetExponent, Float.Model.totalExponent, Format.mantissaBits, Format.minExponent]
  omega

theorem roundWithAccuracy_finite {spec : Format} {accuracy : Accuracy} {em em' : ExtendedMantissa}
    {e' e'' : Int} (sign : Sign)
    (first : UnpackedFloat.shiftToTargetExponent spec m e accuracy = (em, e'))
    (second : UnpackedFloat.shiftToTargetExponent spec em.roundedMantissa e' .exact = (em', e''))
    (positive : 0 < em'.mantissa) :
    UnpackedFloat.roundWithAccuracy spec sign m e accuracy = .finite sign em'.mantissa e'' positive := by
  unfold UnpackedFloat.roundWithAccuracy
  simp only [first, second]
  exact dif_neg positive.ne'

theorem shiftToTargetExponent_exact (full : m.log2 = 52 + k) (least : -1074 ≤ e + k) :
    UnpackedFloat.shiftToTargetExponent .binary64 m e .exact =
      (ExtendedMantissa.mk m false false >>> k, e + k) := by
  have target : Format.binary64.targetExponent (Float.Model.totalExponent m e) = e + k := by
    rw [targetExponent_eq, full]
    omega
  simp only [UnpackedFloat.shiftToTargetExponent, target, UnpackedFloat.shiftToExponent,
    ExtendedMantissa.ofMantissaAndAccuracy, add_sub_cancel_left, Int.toNat_natCast]

/-- Significands of more than 53 bits are shifted to that length and rounded; a significand that gets one
bit more by it is shifted once again. -/
theorem round_finite (sign : Sign) (full : m.log2 = 52 + k) (least : -1074 ≤ e + k) :
    ∃ (m' : Nat) (e' : Int) (positive : 0 < m'),
      UnpackedFloat.roundWithAccuracy .binary64 sign m e .exact = .finite sign m' e' positive ∧
      (m' = roundedQuotient m (2 ^ k) ∧ m' < 2 ^ 53 ∧ e' = e + k ∨
        m' = 2 ^ 52 ∧ roundedQuotient m (2 ^ k) = 2 ^ 53 ∧ e' = e + k + 1) := by
  obtain ⟨low, high⟩ := roundedQuotient_full full
  have first := shiftToTargetExponent_exact full least
  have rounded := (shiftedBy k m).rounded
  generalize ExtendedMantissa.mk m false false >>> k = em at first rounded
  rw [← rounded] at low high ⊢
  rcases high.lt_or_eq with short | long
  · have length : em.roundedMantissa.log2 = 52 + 0 := (Nat.log2_eq_iff (by omega)).mpr ⟨low, short⟩
    have second := shiftToTargetExponent_exact (e := e + k) length (by simpa using least)
    exact ⟨_, _, _, roundWithAccuracy_finite sign first second (by show 0 < em.roundedMantissa; omega),
      .inl ⟨rfl, short, by simp⟩⟩
  · have length : em.roundedMantissa.log2 = 52 + 1 := by rw [long, Nat.log2_two_pow]
    have second := shiftToTargetExponent_exact (e := e + k) length (by omega)
    have half : (ExtendedMantissa.mk em.roundedMantissa false false >>> 1).mantissa = 2 ^ 52 := by
      rw [(shiftedBy 1 _).mantissa, long]
      rfl
    exact ⟨_, _, _, roundWithAccuracy_finite sign first second (by rw [half]; decide),
      .inr ⟨half, long, by simp⟩⟩

/-- Numbers of less than 53 bits are filled up to that length, and longer ones are cut to it. -/
theorem filled (positive : 0 < n) :
    (n * 2 ^ (52 - n.log2)).log2 = 52 + (n.log2 - 52) ∧
      roundedQuotient (n * 2 ^ (52 - n.log2)) (2 ^ (n.log2 - 52)) * 2 ^ n.log2 = nearestWhole n * 2 ^ 52 := by
  rcases Nat.le_total n.log2 52 with short | long
  · obtain ⟨missing, fill⟩ := Nat.exists_eq_add_of_le short
    have low := Nat.mul_le_mul_right (2 ^ missing) (Nat.log2_self_le positive.ne')
    have high := Nat.mul_lt_mul_of_pos_right (Nat.lt_log2_self (n := n)) (Nat.two_pow_pos missing)
    rw [← Nat.pow_add] at low high
    have shift : 52 - n.log2 = missing := by omega
    rw [Nat.sub_eq_zero_of_le short, shift, nearestWhole_of_short short, Nat.pow_zero, roundedQuotient_one,
      Nat.mul_assoc, ← Nat.pow_add, Nat.add_comm missing, ← fill]
    refine ⟨(Nat.log2_eq_iff (by positivity)).mpr ⟨?_, ?_⟩, rfl⟩
    · rwa [fill]
    · rwa [fill, show n.log2 + missing + 1 = n.log2 + 1 + missing by omega]
  · obtain ⟨k, full⟩ := Nat.exists_eq_add_of_le long
    rw [Nat.sub_eq_zero_of_le long, nearestWhole, spacing, Nat.pow_zero, Nat.mul_one, full,
      Nat.add_sub_cancel_left, Nat.mul_assoc, ← Nat.pow_add, Nat.add_comm k]
    exact ⟨rfl, rfl⟩

/-- A whole number of 64 bits is converted to the nearest float. -/
theorem stands_ofNat (word : n < 2 ^ 64) : Stands (UnpackedFloat.ofNat .binary64 n) (nearestWhole n) := by
  rcases Nat.eq_zero_or_pos n with rfl | positive
  · exact .zero .positive
  have bits : n.log2 < 64 := (Nat.log2_lt positive.ne').mpr word
  have converted : UnpackedFloat.ofNat .binary64 n = UnpackedFloat.roundWithAccuracy .binary64 .positive
      (n * 2 ^ (52 - n.log2)) (-(52 - n.log2 : Nat)) .exact := by
    have shift : (-Format.binary64.targetExponent (Float.Model.totalExponent n 0)).toNat = 52 - n.log2 := by
      rw [targetExponent_eq]
      omega
    rw [UnpackedFloat.ofNat, UnpackedFloat.ofInt, UnpackedFloat.normalize,
      Int.compare_eq_gt.mpr (by omega)]
    simp only [UnpackedFloat.round, UnpackedFloat.decreaseExponent, Int.toNat_natCast, zero_sub, shift,
      Nat.shiftLeft_eq]
  obtain ⟨length, value⟩ := filled positive
  obtain ⟨m, e, nonzero, float, fits⟩ :=
    round_finite (e := -(52 - n.log2 : Nat)) .positive length (by omega)
  rw [converted, float]
  refine .finite .positive nonzero ?_ ?_ ?_ ?_ ?_
  · rcases fits with ⟨same, -, -⟩ | ⟨same, -, -⟩
    · rw [same]
      exact (roundedQuotient_full length).1
    · exact same.ge
  · omega
  · omega
  · omega
  · rw [← value]
    rcases fits with ⟨same, -, power⟩ | ⟨same, carried, power⟩
    · rw [same, show (e + 52).toNat = n.log2 by omega]
    · rw [same, carried, show (e + 52).toNat = n.log2 + 1 by omega, Nat.pow_succ]
      ring

/-- The float of an integer stands for the nearest integer that is a float. -/
theorem stands_floatOfInt {n : Int} (word : n.natAbs < 2 ^ 64) :
    Stands (floatOfInt n).toModel.unpack (nearestInt n) := by
  have packed {f : UnpackedFloat} {a : Int} (stands : Stands f a) : Stands (Float.Model.pack f).unpack a := by
    have kept : (Float.Model.pack f).unpack = f := stands.unpack_pack
    rwa [kept]
  have magnitude : Stands (UInt64.ofNat n.natAbs).toFloat.toModel.unpack (nearestWhole n.natAbs) := by
    have same : (UInt64.ofNat n.natAbs).toNat = n.natAbs := UInt64.toNat_ofNat_of_lt' word
    have stands : Stands (UInt64.ofNat n.natAbs).toFloat.toModel.unpack
        (nearestWhole (UInt64.ofNat n.natAbs).toNat) := packed (stands_ofNat (UInt64.toNat_lt _))
    rwa [same] at stands
  rcases Int.lt_or_le n 0 with negative | whole
  · have opposite : nearestInt n = -nearestWhole n.natAbs := by
      rw [nearestInt, Int.sign_eq_neg_one_of_neg negative, Int.neg_mul, Int.one_mul]
    rw [floatOfInt, if_pos negative, opposite]
    exact packed magnitude.neg
  · obtain ⟨n, rfl⟩ := Int.eq_ofNat_of_zero_le whole
    rw [floatOfInt, if_neg (not_lt.mpr whole), nearestInt_ofNat]
    exact magnitude

end Standing

/-- Floats are compared as their numbers are; NaN has no order. -/
theorem BinaryOp.compareFloats_eq (x y : Float) :
    compareFloats x y = x.toModel.unpack.compare y.toModel.unpack := by
  have less (x y : Float) : x < y ↔ x.toModel.unpack.compare y.toModel.unpack = some .lt := by
    change decide (Float.Model.lt _ _ = true) = true ↔ _
    rw [decide_eq_true_iff, Float.Model.lt, UnpackedFloat.lt, beq_iff_eq]
  have same : (x == y) = (x.toModel.unpack.compare y.toModel.unpack == some .eq) := rfl
  simp only [compareFloats, less, same, Value.compare_swap x.toModel.unpack]
  cases x.toModel.unpack.compare y.toModel.unpack with
  | none => rfl
  | some order => cases order <;> rfl

theorem natAbs_word (n : Int64) : n.toInt.natAbs < 2 ^ 64 := by
  have low := n.minValue_le_toInt
  have high := n.toInt_lt
  have least : Int64.minValue.toInt = -2 ^ 63 := rfl
  omega

/-- Integers are compared as the floats nearest to them. -/
theorem BinaryOp.compareFloats_int (a b : Int64) :
    compareFloats (floatOfInt a.toInt) (floatOfInt b.toInt) =
      some (compare (nearestInt a.toInt) (nearestInt b.toInt)) := by
  rw [compareFloats_eq]
  exact (stands_floatOfInt (natAbs_word a)).compare (stands_floatOfInt (natAbs_word b))

theorem floatOfInt_not_nan (n : Int64) : (floatOfInt n.toInt).isNaN = false :=
  (stands_floatOfInt (natAbs_word n)).not_nan

end ChangeWatch
