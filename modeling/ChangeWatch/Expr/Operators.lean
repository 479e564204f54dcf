import ChangeWatch.Expr.Error
import ChangeWatch.Value.Equality

/-!
What the operators compute. Integer results that fit 64 bits are exact; others are computed again on
floats. Strings join with anything, and everything compares for equality, but only numbers and pairs
of strings have an order.
-/
namespace ChangeWatch

namespace UnaryOp

def apply (op : UnaryOp) (operand : Value) : Except EvalError Value :=
  match op, operand with
  | .not, v => .ok (.bool !v.truthy)
  | .negate, .int n =>
    match int64? (-n.toInt) with
    | some m => .ok (.int m)
    | none => .ok (.float (-(floatOfInt n.toInt)))
  | .negate, .float x => .ok (.float (-x))
  | .plus, .int n => .ok (.int n)
  | .plus, .float x => .ok (.float x)
  | op, v => .error (.operand op v.kind)

end UnaryOp

namespace BinaryOp

/-- Integers by the exact operation where it has a result of 64 bits, other numbers by the operation
on floats. -/
def arithmetic (exact : Int → Int → Option Int64) (inexact : Float → Float → Float)
    (left right : Value) : Option Value :=
  match left, right with
  | .int a, .int b =>
    match exact a.toInt b.toInt with
    | some n => some (.int n)
    | none => some (.float (inexact (floatOfInt a.toInt) (floatOfInt b.toInt)))
  | _, _ =>
    match left.asFloat?, right.asFloat? with
    | some x, some y => some (.float (inexact x y))
    | _, _ => none

/-- Numbers are added; a string and anything are joined. -/
def sum (left right : Value) : Option Value :=
  match left, right with
  | .str s, v => some (.str (s ++ v.display))
  | v, .str s => some (.str (v.display ++ s))
  | _, _ => arithmetic (fun a b => int64? (a + b)) (· + ·) left right

/-- The remainder has the sign of the dividend. The quotient has to fit 64 bits too, and a zero
divisor leaves no number. -/
def exactRemainder (a b : Int) : Option Int64 :=
  if b = 0 then none else (int64? (a.tdiv b)).bind fun _ => int64? (a.tmod b)

def residue (left right : Value) : Option Value := arithmetic exactRemainder remainder left right

/-- The quotient of two numbers is always a float. -/
def quotient (left right : Value) : Option Value :=
  match left.asFloat?, right.asFloat? with
  | some x, some y => some (.float (x / y))
  | _, _ => none

/-- The order of two floats; NaN has none. -/
def compareFloats (x y : Float) : Option Ordering :=
  if x < y then some .lt else if y < x then some .gt else if x == y then some .eq else none

/-- Whether an order meets a relation. -/
def meets (op : BinaryOp) (order : Ordering) : Bool :=
  match op with
  | .less => order.isLT
  | .greater => order.isGT
  | .lessEqual => order.isLE
  | _ => order.isGE

/-- Strings by their characters, numbers as floats. No relation holds with NaN. -/
def relate (op : BinaryOp) (left right : Value) : Option Value :=
  match left, right with
  | .str s, .str t => some (.bool (op.meets (compare s t)))
  | _, _ =>
    match left.asFloat?, right.asFloat? with
    | some x, some y => some (.bool ((compareFloats x y).any op.meets))
    | _, _ => none

/-- The result on two values, if the operator takes values of their kinds. -/
def result? (op : BinaryOp) (left right : Value) : Option Value :=
  match op with
  | .add => sum left right
  | .sub => arithmetic (fun a b => int64? (a - b)) (· - ·) left right
  | .mul => arithmetic (fun a b => int64? (a * b)) (· * ·) left right
  | .div => quotient left right
  | .rem => residue left right
  | .equal | .strictEqual => some (.bool (left.equal right))
  | .notEqual | .strictNotEqual => some (.bool !(left.equal right))
  | .less | .greater | .lessEqual | .greaterEqual => relate op left right
  | .and => some (.bool (left.truthy && right.truthy))
  | .or => some (.bool (left.truthy || right.truthy))

/-- Applies an operator to operands that both have been evaluated. -/
def apply (op : BinaryOp) (left right : Value) : Except EvalError Value :=
  match op.result? left right with
  | some value => .ok value
  | none => .error (.operands op left.kind right.kind)

end BinaryOp
end ChangeWatch
