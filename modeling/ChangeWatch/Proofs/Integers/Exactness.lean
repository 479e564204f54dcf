import ChangeWatch.Expr.Operators
import Mathlib

/-!
Arithmetic on integers. A result that fits 64 bits is exact, and a float stands only for one that does not.
The one exception is the remainder of the least integer by minus one: it is zero, but counts as too large,
because the quotient is.
-/
namespace ChangeWatch

/-- Some word has this value. -/
def Fits (n : Int) : Prop := ∃ word : Int64, word.toInt = n

theorem fits_iff {n : Int} : Fits n ↔ -0x8000000000000000 ≤ n ∧ n < 0x8000000000000000 := by
  constructor
  · rintro ⟨word, rfl⟩
    have least : Int64.minValue.toInt = -0x8000000000000000 := rfl
    have low := word.minValue_le_toInt
    have high := word.toInt_lt
    omega
  · rintro ⟨low, high⟩
    exact ⟨.ofInt n, Int64.toInt_ofInt_of_le low high⟩

theorem int64?_eq_some_iff {n : Int} {word : Int64} : int64? n = some word ↔ word.toInt = n := by
  unfold int64?
  split
  · rename_i range
    rw [Option.some.injEq, ← Int64.toInt_inj, Int64.toInt_ofInt_of_le range.1 range.2, eq_comm]
  · rename_i outside
    exact ⟨nofun, fun same => absurd (fits_iff.mp ⟨word, same⟩) outside⟩

theorem int64?_eq_none_iff {n : Int} : int64? n = none ↔ ¬ Fits n := by
  rw [Option.eq_none_iff_forall_ne_some, Fits, not_exists]
  exact forall_congr' fun word => not_congr int64?_eq_some_iff

/-- A result is the integer if a word has its value, and the float given only if none has. -/
def AsExact (n : Int) (wide : Float) (result : Except EvalError Value) : Prop :=
  (∃ word : Int64, word.toInt = n ∧ result = .ok (.int word)) ∨ ¬ Fits n ∧ result = .ok (.float wide)

/-- The number that an operator gives for an integer. -/
def UnaryOp.onIntegers? (op : UnaryOp) (a : Int) : Option Int :=
  match op with
  | .negate => some (-a)
  | .plus => some a
  | .not => none

theorem UnaryOp.apply_asExact {op : UnaryOp} {a : Int64} {n : Int}
    (defined : op.onIntegers? a.toInt = some n) : AsExact n (-(floatOfInt a.toInt)) (op.apply (.int a)) := by
  cases op with
  | not => cases defined
  | plus =>
    cases defined
    exact .inl ⟨a, rfl, rfl⟩
  | negate =>
    cases defined
    simp only [apply]
    cases fits : int64? (-a.toInt) with
    | some word => exact .inl ⟨word, int64?_eq_some_iff.mp fits, rfl⟩
    | none => exact .inr ⟨int64?_eq_none_iff.mp fits, rfl⟩

namespace BinaryOp

variable {op : BinaryOp} {a b : Int64} {n : Int}

/-- The operators that stay within the integers where they can. -/
def integral : List BinaryOp := [.add, .sub, .mul, .rem]

/-- The number that an operator gives for two integers. The remainder has the sign of the dividend. -/
def onIntegers? (op : BinaryOp) (a b : Int) : Option Int :=
  match op with
  | .add => some (a + b)
  | .sub => some (a - b)
  | .mul => some (a * b)
  | .rem => if b = 0 then none else some (a.tmod b)
  | _ => none

/-- The operation on floats that computes what no word has. -/
def onFloats (op : BinaryOp) (x y : Float) : Float :=
  match op with
  | .add => x + y
  | .sub => x - y
  | .mul => x * y
  | _ => remainder x y

/-- The pair of operands whose quotient is too large for a word, though their remainder is not. -/
def WideQuotient (a b : Int64) : Prop := a = Int64.minValue ∧ b = -1

/-- The checked operation on two words, which has no result where it overflows. -/
def checked? (op : BinaryOp) (a b : Int) : Option Int64 :=
  match op with
  | .add => int64? (a + b)
  | .sub => int64? (a - b)
  | .mul => int64? (a * b)
  | _ => exactRemainder a b

/-- Where the checked operation has no result, the one on floats is taken. -/
theorem apply_integers (member : op ∈ integral) (a b : Int64) :
    (∃ word, op.checked? a.toInt b.toInt = some word ∧ op.apply (.int a) (.int b) = .ok (.int word)) ∨
      op.checked? a.toInt b.toInt = none ∧ op.apply (.int a) (.int b) =
        .ok (.float (op.onFloats (floatOfInt a.toInt) (floatOfInt b.toInt))) := by
  have widened : op.result? (.int a) (.int b) =
      arithmetic op.checked? op.onFloats (.int a) (.int b) := by
    simp only [integral, List.mem_cons, List.not_mem_nil, or_false] at member
    rcases member with rfl | rfl | rfl | rfl <;> rfl
  simp only [apply, widened, arithmetic]
  cases op.checked? a.toInt b.toInt with
  | some word => exact .inl ⟨word, rfl, rfl⟩
  | none => exact .inr ⟨rfl, rfl⟩

/-- The quotient of two words is one, but for the opposite of the least. -/
theorem fits_quotient (common : ¬ WideQuotient a b) : Fits (a.toInt.tdiv b.toInt) := by
  by_cases least : a = Int64.minValue
  · exact ⟨a / b, Int64.toInt_div_of_ne_right a b fun minus => common ⟨least, minus⟩⟩
  · exact ⟨a / b, Int64.toInt_div_of_ne_left a b least⟩

theorem exactRemainder_eq (nonzero : b.toInt ≠ 0) (common : ¬ WideQuotient a b) :
    exactRemainder a.toInt b.toInt = int64? (a.toInt.tmod b.toInt) := by
  obtain ⟨quotient, same⟩ := fits_quotient common
  rw [exactRemainder, if_neg nonzero, int64?_eq_some_iff.mpr same, Option.bind_some]

/-- The checked operation fails only where the result does not fit, but for one remainder. -/
theorem checked?_eq (defined : op.onIntegers? a.toInt b.toInt = some n)
    (common : ¬ (op = .rem ∧ WideQuotient a b)) : op ∈ integral ∧ op.checked? a.toInt b.toInt = int64? n := by
  cases op with
  | add | sub | mul =>
    cases defined
    exact ⟨by decide, rfl⟩
  | rem =>
    simp only [onIntegers?, Option.ite_none_left_eq_some] at defined
    obtain ⟨nonzero, ⟨⟩⟩ := defined
    exact ⟨by decide, exactRemainder_eq nonzero fun wide => common ⟨rfl, wide⟩⟩
  | _ => cases defined

theorem apply_asExact (defined : op.onIntegers? a.toInt b.toInt = some n)
    (common : ¬ (op = .rem ∧ WideQuotient a b)) :
    AsExact n (op.onFloats (floatOfInt a.toInt) (floatOfInt b.toInt)) (op.apply (.int a) (.int b)) := by
  obtain ⟨member, same⟩ := checked?_eq defined common
  obtain ⟨word, fits, int⟩ | ⟨overflow, float⟩ := apply_integers member a b
  · exact .inl ⟨word, int64?_eq_some_iff.mp (same.symm.trans fits), int⟩
  · exact .inr ⟨int64?_eq_none_iff.mp (same.symm.trans overflow), float⟩

theorem rem_wideQuotient (wide : WideQuotient a b) :
    ∃ x, BinaryOp.rem.apply (.int a) (.int b) = .ok (.float x) := by
  obtain ⟨rfl, rfl⟩ := wide
  exact ⟨_, rfl⟩

/-- A remainder of the pair is known to be zero and is a float all the same. -/
theorem not_asExact_rem (wide : WideQuotient a b) (x : Float) :
    ¬ AsExact (a.toInt.tmod b.toInt) x (BinaryOp.rem.apply (.int a) (.int b)) := by
  obtain ⟨y, float⟩ := rem_wideQuotient wide
  rw [float]
  rintro (⟨word, _, int⟩ | ⟨outside, _⟩)
  · cases int
  · obtain ⟨rfl, rfl⟩ := wide
    exact outside ⟨0, by decide⟩

/-- Two integers always have a number for a result. -/
theorem apply_isNumber (member : op ∈ integral) (a b : Int64) :
    ∃ value, op.apply (.int a) (.int b) = .ok value ∧ value.isNumber = true := by
  obtain ⟨word, _, int⟩ | ⟨_, float⟩ := apply_integers member a b
  · exact ⟨_, int, rfl⟩
  · exact ⟨_, float, rfl⟩

/-- What no integer is a remainder by is not a number. -/
theorem rem_zero (a : Int64) :
    ∃ x, BinaryOp.rem.apply (.int a) (.int 0) = .ok (.float x) ∧ x.isNaN = true := by
  refine ⟨0.0 / 0.0, ?_, rfl⟩
  have undefined : remainder (floatOfInt a.toInt) (floatOfInt (0 : Int64).toInt) = 0.0 / 0.0 := by
    have zero : (floatOfInt (0 : Int64).toInt == 0.0) = true := rfl
    rw [remainder, zero]
    simp
  exact congrArg (fun x => Except.ok (Value.float x)) undefined

/-- Arithmetic on integers is exact where a word has the result and is done on floats only where none has,
but for one remainder. No pair of operands is an error, and a zero divisor leaves NaN. -/
theorem arithmetic_exact_iff (a b : Int64) :
    (∀ (op : BinaryOp) n, op.onIntegers? a.toInt b.toInt = some n →
      (AsExact n (op.onFloats (floatOfInt a.toInt) (floatOfInt b.toInt)) (op.apply (.int a) (.int b)) ↔
        ¬ (op = .rem ∧ WideQuotient a b))) ∧
    (∀ (op : UnaryOp) n, op.onIntegers? a.toInt = some n →
      AsExact n (-(floatOfInt a.toInt)) (op.apply (.int a))) ∧
    (∀ op ∈ integral, ∃ value, op.apply (.int a) (.int b) = .ok value ∧ value.isNumber = true) ∧
    ∃ x, BinaryOp.rem.apply (.int a) (.int 0) = .ok (.float x) ∧ x.isNaN = true := by
  refine ⟨fun op n defined => ⟨?_, apply_asExact defined⟩, fun op n => UnaryOp.apply_asExact,
    fun op member => apply_isNumber member a b, rem_zero a⟩
  rintro asExact ⟨rfl, wide⟩
  simp only [onIntegers?, Option.ite_none_left_eq_some] at defined
  obtain ⟨nonzero, ⟨⟩⟩ := defined
  exact not_asExact_rem wide _ asExact

/-- The first square of all that no word has and the one before it, a remainder of the least integer, and the
opposite of it. -/
theorem arithmetic_exact_iff_limits :
    AsExact 9223372030926249001 (floatOfInt 3037000499 * floatOfInt 3037000499)
        (BinaryOp.mul.apply (.int 3037000499) (.int 3037000499)) ∧
      AsExact 9223372037000250000 (floatOfInt 3037000500 * floatOfInt 3037000500)
        (BinaryOp.mul.apply (.int 3037000500) (.int 3037000500)) ∧
      AsExact (-8) (remainder (floatOfInt (-9223372036854775808)) (floatOfInt 10))
        (BinaryOp.rem.apply (.int Int64.minValue) (.int 10)) ∧
      AsExact 9223372036854775808 (-(floatOfInt (-9223372036854775808)))
        (UnaryOp.negate.apply (.int Int64.minValue)) := by
  refine ⟨?_, ?_, ?_, ?_⟩
  · exact ((arithmetic_exact_iff 3037000499 3037000499).1 .mul _ rfl).mpr nofun
  · exact ((arithmetic_exact_iff 3037000500 3037000500).1 .mul _ rfl).mpr nofun
  · have common : ¬ (BinaryOp.rem = .rem ∧ WideQuotient Int64.minValue 10) := by
      rintro ⟨_, _, minus⟩
      revert minus
      decide
    exact ((arithmetic_exact_iff Int64.minValue 10).1 .rem _ rfl).mpr common
  · exact (arithmetic_exact_iff Int64.minValue 0).2.1 .negate _ rfl

/-- The remainder of the least integer by minus one is zero and is a float. -/
theorem zero_is_widened : ¬ ∀ (op : BinaryOp) (a b : Int64) (n : Int),
    op.onIntegers? a.toInt b.toInt = some n →
      AsExact n (op.onFloats (floatOfInt a.toInt) (floatOfInt b.toInt)) (op.apply (.int a) (.int b)) := by
  intro all
  have exact := all .rem Int64.minValue (-1) (Int64.minValue.toInt.tmod (-1 : Int64).toInt) rfl
  exact not_asExact_rem ⟨rfl, rfl⟩ _ exact

end BinaryOp
end ChangeWatch
