import ChangeWatch.Number.Parts

/-!
Reading a decimal numeral as a float, in two ways. The exact way gives the nearest float. The scaled
way multiplies or divides a bounded significand by a power of ten in float arithmetic, as the numbers
of a JSON document are read; it is fast and may miss the nearest float by a few units.
-/
namespace ChangeWatch

/-- A numeral cut into its parts: whole digits, the digits behind a point if there is one, and an
exponent if there is one. -/
structure Numeral where
  negative : Bool
  whole : List Char
  fraction : Option (List Char)
  exponent : Option Int
deriving DecidableEq, Repr

def digitValue (c : Char) : Nat := c.toNat - '0'.toNat

/-- The number that a run of decimal digits denotes. -/
def digitsValue (digits : List Char) : Nat := digits.foldl (fun n c => 10 * n + digitValue c) 0

/-- The float nearest to `m · 10 ^ e`. Exponents beyond the range of floats are settled without
computing the power. -/
def floatOfDecimal (m : Nat) (e : Int) : Float :=
  let top := (Nat.toDigits 10 m).length + e
  if m = 0 ∨ top < -330 then 0.0
  else if 400 < top then 1.0 / 0.0
  else if 0 ≤ e then Float.ofScientific m false e.toNat
  else Float.ofScientific m true (-e).toNat

namespace Numeral

/-- The float nearest to the numeral; numerals too large for a float give an infinity. -/
def nearest (n : Numeral) : Float :=
  let fraction := n.fraction.getD []
  let magnitude := floatOfDecimal (digitsValue (n.whole ++ fraction))
    (n.exponent.getD 0 - fraction.length)
  if n.negative then -magnitude else magnitude

/-- A significand below `2 ^ 64`, the power of ten it stands under, and whether it has taken all it
can hold. -/
structure Significand where
  value : Nat
  exponent : Int
  full : Bool

/-- Takes a digit in front of the point. Past the limit a digit only raises the exponent. -/
def Significand.takeWhole (s : Significand) (c : Char) : Significand :=
  let next := s.value * 10 + digitValue c
  if s.full || decide (UInt64.size ≤ next) then { s with exponent := s.exponent + 1, full := true }
  else { s with value := next }

/-- Takes a digit behind the point. Past the limit digits are dropped. -/
def Significand.takeFraction (s : Significand) (c : Char) : Significand :=
  let next := s.value * 10 + digitValue c
  if s.full || decide (UInt64.size ≤ next) then { s with full := true }
  else { value := next, exponent := s.exponent - 1, full := false }

def significand (n : Numeral) : Significand :=
  let whole := n.whole.foldl Significand.takeWhole ⟨0, 0, false⟩
  (n.fraction.getD []).foldl Significand.takeFraction { whole with full := false }

/-- Scales by a power of ten, in steps that are themselves floats. The answer is missing when the
number is too large. -/
def scaleBy : Nat → Float → Int → Option Float
  | 0, _, _ => some 0.0
  | steps + 1, x, e =>
    if e.natAbs ≤ 308 then
      let power := Float.ofScientific 1 false e.natAbs
      if 0 ≤ e then
        let y := x * power
        if y.isInf then none else some y
      else some (x / power)
    else if x == 0.0 then some x
    else if 0 ≤ e then none
    else scaleBy steps (x / Float.ofScientific 1 false 308) (e + 308)

/-- The float that the numeral has in a JSON document, missing when it is too large. -/
def scaled? (n : Numeral) : Option Float :=
  let s := n.significand
  let e := s.exponent + n.exponent.getD 0
  (scaleBy 4 (UInt64.ofNat s.value).toFloat e).map fun x => if n.negative then -x else x

end Numeral
end ChangeWatch
