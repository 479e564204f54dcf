/-!
A finite float as a sign, a whole significand and a power of two. Exact questions about floats are
asked of these parts: whether the number is whole, which remainder a division leaves, and which
decimals lie close enough to be read back as it.
-/
namespace ChangeWatch

/-- The number `± significand · 2 ^ exponent`. -/
structure Parts where
  negative : Bool
  significand : Nat
  exponent : Int
deriving DecidableEq, Repr

namespace Parts

/-- The parts of a finite float; the significand has at most 53 bits. -/
def ofFloat (x : Float) : Parts :=
  let bits := x.toBits.toNat
  let field := bits / Nat.pow 2 52 % Nat.pow 2 11
  let fraction := bits % Nat.pow 2 52
  { negative := decide (Nat.pow 2 63 ≤ bits)
    significand := if field = 0 then fraction else fraction + Nat.pow 2 52
    exponent := (max field 1 : Nat) - 1075 }

/-- The float with these parts, for a significand of at most 53 bits and an exponent within the
range of floats. -/
def toFloat (p : Parts) : Float :=
  let room := 52 - p.significand.log2
  let shift := min room (p.exponent + 1074).toNat
  let fraction := p.significand * Nat.pow 2 shift
  let field := if fraction < Nat.pow 2 52 then 0 else (p.exponent + 1075).toNat - shift
  let sign := if p.negative then Nat.pow 2 63 else 0
  Float.ofBits (UInt64.ofNat (sign + field * Nat.pow 2 52 + fraction % Nat.pow 2 52))

/-- The magnitude, when it is a whole number. -/
def whole? (p : Parts) : Option Nat :=
  if 0 ≤ p.exponent then some (p.significand * Nat.pow 2 p.exponent.toNat)
  else if p.significand % Nat.pow 2 (-p.exponent).toNat = 0 then
    some (p.significand / Nat.pow 2 (-p.exponent).toNat)
  else none

end Parts

/-- The float nearest to an integer of at most 64 bits, ties to even. -/
def floatOfInt (n : Int) : Float :=
  let magnitude := (UInt64.ofNat n.natAbs).toFloat
  if n < 0 then -magnitude else magnitude

/-- The natural number that a float stands for, when it is finite, whole and not below zero. -/
def naturalOfFloat? (x : Float) : Option Nat :=
  if x.isFinite && decide (0.0 ≤ x) then (Parts.ofFloat x).whole? else none

/-- The remainder of the quotient rounded toward zero. It has the sign of the dividend and is
exact, because it is a multiple of the smaller power of two and below the divisor. -/
def remainder (x y : Float) : Float :=
  if x.isNaN || y.isNaN || x.isInf || y == 0.0 then 0.0 / 0.0
  else if y.isInf then x
  else
    let a := Parts.ofFloat x
    let b := Parts.ofFloat y
    let e := min a.exponent b.exponent
    let dividend := a.significand * Nat.pow 2 (a.exponent - e).toNat
    let divisor := b.significand * Nat.pow 2 (b.exponent - e).toNat
    ({ negative := a.negative, significand := dividend % divisor, exponent := e } : Parts).toFloat

end ChangeWatch
