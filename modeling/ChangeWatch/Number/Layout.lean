import ChangeWatch.Number.Shortest

/-!
How a float is laid out as text. The digits are always the shortest that read back; a layout decides
where the notation with an exponent takes over and whether a whole number keeps its point.
-/
namespace ChangeWatch

/-- The decisions of one number format. A point position `p` belongs to numbers from `10 ^ (p - 1)`
up to `10 ^ p`. -/
structure Layout where
  positional : Int → Bool
  pointed : Bool
  /-- Whether a power of ten that is not negative is written with a plus. -/
  signed : Bool
  tie : Tie

namespace Layout

/-- The text shown to a reader: always positional, and a whole number has no point. -/
def plain : Layout :=
  { positional := fun _ => true, pointed := false, signed := false, tie := .up }

/-- The text of a float literal: positional from `1e-4` to below `1e16`, whole numbers with a
point. -/
def literal : Layout :=
  { positional := fun p => decide (-3 ≤ p) && decide (p ≤ 16), pointed := true, signed := false,
    tie := .up }

/-- The text of a number in a JSON document: positional from `1e-5` to below `1e16`, whole numbers
with a point, and every power of ten with its sign. -/
def document : Layout :=
  { positional := fun p => decide (-4 ≤ p) && decide (p ≤ 16), pointed := true, signed := true,
    tie := .even }

def zeros (n : Nat) : List Char := List.replicate n '0'

/-- Digits with their point moved to a position: leading zeros after the point for small numbers,
trailing zeros before it for large ones. -/
def place (pointed : Bool) (digits : List Char) (position : Int) : List Char :=
  if position ≤ 0 then '0' :: '.' :: (zeros (-position).toNat ++ digits)
  else
    let width := position.toNat
    if digits.length ≤ width then
      digits ++ zeros (width - digits.length) ++ (if pointed then ['.', '0'] else [])
    else digits.take width ++ '.' :: digits.drop width

/-- One digit before the point and a power of ten behind. -/
def scale (signed : Bool) (digits : List Char) (position : Int) : List Char :=
  let mantissa := match digits with
    | d :: e :: rest => d :: '.' :: e :: rest
    | short => short
  let sign := if signed && decide (0 < position) then ['+'] else []
  mantissa ++ 'e' :: (sign ++ (toString (position - 1)).toList)

/-- The text of a finite float. -/
def render (layout : Layout) (x : Float) : String :=
  let parts := Parts.ofFloat x
  let decimal := parts.shortest layout.tie
  let digits := (Nat.toDigits 10 decimal.digits)
  let position : Int := if decimal.digits = 0 then 1 else digits.length + decimal.exponent
  let magnitude :=
    if layout.positional position then place layout.pointed digits position
    else scale layout.signed digits position
  String.ofList (if parts.negative then '-' :: magnitude else magnitude)

end Layout
end ChangeWatch
