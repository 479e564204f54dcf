import ChangeWatch.Number.Parts

/-!
The shortest decimal that reads back as a given float. A decimal reads back as a float exactly when
it lies in the interval of reals that round to it. Coarser grids of decimals are tried before finer
ones, and on each grid only the two neighbours of the float itself, so the first hit has the fewest
digits.
-/
namespace ChangeWatch

/-- The decimal `digits · 10 ^ exponent`. -/
structure Decimal where
  digits : Nat
  exponent : Int
deriving DecidableEq, Repr

/-- Which neighbour is taken when a float lies halfway between two decimals of its grid. -/
inductive Tie where
  | up
  | even
deriving DecidableEq, Repr

namespace Shortest

/-- A float and the ends of its rounding interval, over one denominator and in units of a power of
ten. The ends belong to the interval when the significand is even. -/
structure Interval where
  low : Nat
  value : Nat
  high : Nat
  denominator : Nat
  closed : Bool

/-- The interval of a positive float in units of `10 ^ k`. Below a power of two the floats lie twice
as close, so the lower end is half as far away. -/
def Interval.onGrid (p : Parts) (k : Int) : Interval :=
  let quarter := p.exponent - 2
  let scale := Nat.pow 2 quarter.toNat * Nat.pow 10 (-k).toNat
  let below := if p.significand = Nat.pow 2 52 ∧ -1074 < p.exponent then 1 else 2
  { low := (4 * p.significand - below) * scale
    value := 4 * p.significand * scale
    high := (4 * p.significand + 2) * scale
    denominator := Nat.pow 2 (-quarter).toNat * Nat.pow 10 k.toNat
    closed := p.significand % 2 = 0 }

def Interval.contains (i : Interval) (n : Nat) : Bool :=
  let point := n * i.denominator
  if i.closed then decide (i.low ≤ point) && decide (point ≤ i.high)
  else decide (i.low < point) && decide (point < i.high)

/-- The neighbour of the value that is nearer to it. -/
def Interval.nearest (i : Interval) (tie : Tie) : Nat :=
  let below := i.value / i.denominator
  let rest := 2 * (i.value % i.denominator)
  if rest < i.denominator then below
  else if i.denominator < rest then below + 1
  else match tie with
    | .up => below + 1
    | .even => below + below % 2

/-- The neighbour of the value that lies in the interval, the nearer if both do. -/
def Interval.hit? (i : Interval) (tie : Tie) : Option Nat :=
  let below := i.value / i.denominator
  match i.contains below, i.contains (below + 1) with
  | true, true => some (i.nearest tie)
  | true, false => some below
  | false, true => some (below + 1)
  | false, false => none

/-- Tries grids of falling exponent; seventeen digits always suffice. -/
def search (tie : Tie) (p : Parts) : Nat → Int → Decimal
  | 0, k => ⟨(Interval.onGrid p k).nearest tie, k⟩
  | steps + 1, k =>
    match (Interval.onGrid p k).hit? tie with
    | some digits => ⟨digits, k⟩
    | none => search tie p steps (k - 1)

/-- An exponent whose power of ten is not below the float. -/
def ceiling (p : Parts) : Int :=
  (p.exponent + p.significand.log2 + 1) * 30103 / 100000 + 1

end Shortest

/-- The decimal with the fewest digits that reads back as the magnitude of the float with these
parts, and of those the nearest to it. -/
def Parts.shortest (p : Parts) (tie : Tie) : Decimal :=
  if p.significand = 0 then ⟨0, 0⟩ else Shortest.search tie p 20 (Shortest.ceiling p)

end ChangeWatch
