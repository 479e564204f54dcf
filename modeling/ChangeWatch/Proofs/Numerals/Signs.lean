import ChangeWatch.Number.Numeral
import Mathlib

/-!
Numerals have no sign, and neither have the floats nearest to them.
-/
namespace ChangeWatch

open Float.Model (UnpackedFloat Format)
open Float.Model.UnpackedFloat (Sign Accuracy)

/-- Numbers without a minus sign. -/
def Unsigned : UnpackedFloat → Prop
  | .infinity sign | .zero sign => sign = .positive
  | .finite sign _ _ _ => sign = .positive
  | .notANumber => True

namespace Unsigned

variable {f g : UnpackedFloat} {spec : Format} {mantissa : Nat} {exponent : Int}

theorem packed (unsigned : Unsigned f) : (UnpackedFloat.pack .binary64 f).toNat < 2 ^ 63 := by
  have components (e : BitVec 11) (m : BitVec 52) :
      (UnpackedFloat.packComponents .binary64 .positive e m).toNat < 2 ^ 63 := by
    have lower := m.isLt
    have upper := e.isLt
    have zero : (Sign.positive.toBitVec).toNat = 0 := rfl
    rw [UnpackedFloat.packComponents, BitVec.toNat_append, BitVec.toNat_append, zero, Nat.zero_shiftLeft,
      Nat.zero_or, Nat.shiftLeft_eq]
    exact Nat.or_lt_two_pow (by omega) (by omega)
  cases f with
  | notANumber => exact components _ _
  | infinity sign | zero sign =>
    cases unsigned
    exact components _ _
  | finite sign mantissa exponent positive =>
    cases unsigned
    simp only [UnpackedFloat.pack]
    split
    · exact components _ _
    · split <;> exact components _ _

theorem unpacked {b : BitVec 64} (unsigned : b.toNat < 2 ^ 63) :
    Unsigned (UnpackedFloat.unpack .binary64 b) := by
  have sign : Sign.ofBitVec (@UnpackedFloat.unpackSign .binary64 b) = .positive := by
    refine if_pos (BitVec.eq_of_toNat_eq ?_)
    simp [UnpackedFloat.unpackSign]
    omega
  simp only [UnpackedFloat.unpack]
  rw [sign]
  split
  · split <;> trivial
  · split
    · split <;> trivial
    · trivial

theorem roundWithAccuracy {accuracy : Accuracy} :
    Unsigned (UnpackedFloat.roundWithAccuracy spec .positive mantissa exponent accuracy) := by
  unfold UnpackedFloat.roundWithAccuracy
  simp only
  split
  · rfl
  · rfl

theorem round : Unsigned (UnpackedFloat.round spec .positive mantissa exponent) := roundWithAccuracy

theorem mul (unsigned : Unsigned f) (unsigned' : Unsigned g) : Unsigned (UnpackedFloat.mul spec f g) := by
  cases f <;> cases g <;> simp only [Unsigned] at unsigned unsigned' <;> subst_vars <;>
    first | trivial | exact roundWithAccuracy

theorem div (unsigned : Unsigned f) (unsigned' : Unsigned g) : Unsigned (UnpackedFloat.div spec f g) := by
  cases f <;> cases g <;> simp only [Unsigned] at unsigned unsigned' <;> subst_vars <;>
    first | trivial | exact roundWithAccuracy

theorem ofNat (n : Nat) : Unsigned (UnpackedFloat.ofNat spec n) := by
  unfold UnpackedFloat.ofNat UnpackedFloat.ofInt UnpackedFloat.normalize
  split
  · rename_i less
    have := Int.compare_eq_lt.mp less
    omega
  · rfl
  · exact round

theorem ofScientific (m : Nat) (e : Int) : Unsigned (UnpackedFloat.ofScientific spec m e) := by
  unfold UnpackedFloat.ofScientific
  split
  · rfl
  split
  · rfl
  split
  · rfl
  split
  · exact mul rfl rfl
  · exact div rfl rfl

end Unsigned

/-- Floats whose first bit is not set. -/
def IsUnsigned (x : Float) : Prop := x.toBits.toNat < 2 ^ 63

namespace IsUnsigned

variable {x y : Float} {f : UnpackedFloat}

theorem unpack (unsigned : IsUnsigned x) : Unsigned x.toModel.unpack := .unpacked unsigned

theorem pack (unsigned : Unsigned f) : IsUnsigned (.ofModel (.pack f)) := unsigned.packed

theorem mul (unsigned : IsUnsigned x) (unsigned' : IsUnsigned y) : IsUnsigned (x * y) :=
  pack (.mul unsigned.unpack unsigned'.unpack)

theorem div (unsigned : IsUnsigned x) (unsigned' : IsUnsigned y) : IsUnsigned (x / y) :=
  pack (.div unsigned.unpack unsigned'.unpack)

theorem ofBits {bits : UInt64} (unsigned : bits.toNat < 2 ^ 63) : IsUnsigned (Float.ofBits bits) :=
  pack (.unpacked unsigned)

theorem toFloat (n : UInt64) : IsUnsigned n.toFloat := pack (.ofNat n.toNat)

theorem powerOfTen : ∀ x ∈ Float.exactlyRepresentablePowersOfTen, IsUnsigned x := by
  simp only [Float.exactlyRepresentablePowersOfTen, List.mem_toArray, List.forall_mem_cons,
    List.not_mem_nil, false_imp_iff, implies_true, and_true]
  refine ⟨?_, ?_, ?_, ?_, ?_, ?_, ?_, ?_, ?_, ?_, ?_, ?_, ?_, ?_, ?_, ?_, ?_, ?_, ?_, ?_, ?_, ?_, ?_⟩ <;>
    exact ofBits (by decide)

theorem ofScientific (m : Nat) (negative : Bool) (e : Nat) :
    IsUnsigned (Float.ofScientific m negative e) := by
  unfold Float.ofScientific
  split
  · split
    · exact (toFloat _).div (powerOfTen _ (Array.getElem_mem _))
    · exact (toFloat _).mul (powerOfTen _ (Array.getElem_mem _))
  · exact pack (.ofScientific m _)

theorem floatOfDecimal (m : Nat) (e : Int) : IsUnsigned (floatOfDecimal m e) := by
  simp only [ChangeWatch.floatOfDecimal]
  generalize ((Nat.toDigits 10 m).length : Int) + e = top
  split
  · exact ofScientific 0 true 1
  split
  · exact (ofScientific 10 true 1).div (ofScientific 0 true 1)
  split
  · exact ofScientific m false _
  · exact ofScientific m true _

/-- Numerals without a sign are read as floats without one. -/
theorem nearest {n : Numeral} (unsigned : n.negative = false) : IsUnsigned n.nearest := by
  unfold Numeral.nearest
  rw [unsigned]
  exact floatOfDecimal _ _

theorem parts (unsigned : IsUnsigned x) : (Parts.ofFloat x).negative = false :=
  decide_eq_false (Nat.not_le_of_lt unsigned)

end IsUnsigned
end ChangeWatch
