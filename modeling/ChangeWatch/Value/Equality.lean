import ChangeWatch.Value.Basic

/-!
Two equalities on values. Strict equality is that of the operators and follows the floats, so NaN
differs from itself. Loose identity decides whether a watched value changed; it differs only in that
NaN is identical to NaN, so that an unchanged NaN is not reported. Numbers compare across integers
and floats and containers by their contents. A container is also equal to itself, whatever it holds:
it is known by its place, and by its contents, which one place gives to one container only.
-/
namespace ChangeWatch.Value

/-- What the two equalities make of two NaNs. -/
inductive NaNs where
  | differ
  | agree
deriving DecidableEq, Repr

def sameFloat (nans : NaNs) (x y : Float) : Bool :=
  x == y || (nans == .agree && x.isNaN && y.isNaN)

mutual
def same (nans : NaNs) : Value → Value → Bool
  | null, null => true
  | bool a, bool b => a == b
  | int a, int b => a == b
  | int a, float y => sameFloat nans (floatOfInt a.toInt) y
  | float x, int b => sameFloat nans x (floatOfInt b.toInt)
  | float x, float y => sameFloat nans x y
  | str s, str t => s == t
  | list p xs, list q ys => (p == q && sameItems .agree xs ys) || sameItems nans xs ys
  | map p xs, map q ys => (p == q && sameEntries .agree xs ys) || sameEntries nans xs ys
  | object a, object b => a == b
  | function a, function b => a == b
  | _, _ => false

def sameItems (nans : NaNs) : List Value → List Value → Bool
  | [], [] => true
  | x :: xs, y :: ys => same nans x y && sameItems nans xs ys
  | _, _ => false

def sameEntries (nans : NaNs) : List (String × Value) → List (String × Value) → Bool
  | [], [] => true
  | (j, x) :: xs, (k, y) :: ys => j == k && same nans x y && sameEntries nans xs ys
  | _, _ => false
end

/-- The equality of the operators. -/
def equal (v w : Value) : Bool := same .differ v w

/-- The equality that decides whether a watched value changed. -/
def identical (v w : Value) : Bool := same .agree v w

end ChangeWatch.Value
