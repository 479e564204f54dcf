import ChangeWatch.Expr.Operators
import ChangeWatch.Proofs.Timeless.Values

/-!
Operators do not see the time at which their operands were made, unless the operands share a container.
They make no containers themselves.
-/
namespace ChangeWatch

open Value (Apart)

variable [Epoch]

namespace UnaryOp

theorem apply_timeless (op : UnaryOp) (operand : Value) :
    op.apply operand.timeless = op.apply operand := by
  cases op <;> cases operand <;> rfl

theorem apply_foreign {op : UnaryOp} {operand value : Value}
    (applied : op.apply operand = .ok value) : value.Foreign := by
  unfold apply at applied
  split at applied
  · cases applied
    trivial
  · split at applied <;> cases applied <;> trivial
  all_goals cases applied
  all_goals trivial

end UnaryOp

namespace BinaryOp

variable (exact : Int → Int → Option Int64) (inexact : Float → Float → Float)

theorem arithmetic_timeless (left right : Value) :
    arithmetic exact inexact left.timeless right.timeless =
      arithmetic exact inexact left right := by
  cases left <;> cases right <;> rfl

theorem relate_timeless (op : BinaryOp) (left right : Value) :
    relate op left.timeless right.timeless = relate op left right := by
  cases left <;> cases right <;> rfl

theorem quotient_timeless (left right : Value) :
    quotient left.timeless right.timeless = quotient left right := by
  simp only [quotient, Value.asFloat?_timeless]

omit [Epoch] in
/-- A sum by what its operands show. -/
theorem sum_eq (left right : Value) :
    sum left right = match left.asString?, right.asString? with
      | some s, _ => some (.str (s ++ right.display))
      | none, some t => some (.str (left.display ++ t))
      | none, none => arithmetic (fun a b => int64? (a + b)) (· + ·) left right := by
  cases left <;> cases right <;> rfl

theorem sum_timeless (left right : Value) :
    sum left.timeless right.timeless = sum left right := by
  have strings (value : Value) : value.timeless.asString? = value.asString? := by
    cases value <;> rfl
  simp only [sum_eq, strings, Value.display_timeless, arithmetic_timeless]

theorem arithmetic_foreign {exact : Int → Int → Option Int64} {inexact : Float → Float → Float}
    {left right value : Value} (computed : arithmetic exact inexact left right = some value) :
    value.Foreign := by
  unfold arithmetic at computed
  split at computed
  · split at computed <;> cases computed <;> trivial
  · split at computed <;> cases computed
    trivial

theorem result?_foreign {op : BinaryOp} {left right value : Value}
    (computed : op.result? left right = some value) : value.Foreign := by
  have related {op : BinaryOp} (computed : relate op left right = some value) :
      value.Foreign := by
    unfold relate at computed
    split at computed
    · cases computed
      trivial
    · split at computed <;> cases computed
      trivial
  cases op with
  | add =>
    rw [result?, sum_eq] at computed
    split at computed
    · cases computed
      trivial
    · cases computed
      trivial
    · exact arithmetic_foreign computed
  | sub | mul | rem =>
    simp only [result?, residue] at computed
    exact arithmetic_foreign computed
  | div =>
    simp only [result?, quotient] at computed
    split at computed <;> cases computed
    trivial
  | less | greater | lessEqual | greaterEqual => exact related computed
  | _ =>
    cases computed
    trivial

variable {P Q : Place → Prop}

theorem apply_timeless (apart : Apart P Q) (op : BinaryOp) {left right : Value}
    (sound : left.Sound P) (other : right.Sound Q) :
    op.apply left.timeless right.timeless = op.apply left right := by
  have results : op.result? left.timeless right.timeless = op.result? left right := by
    cases op <;> simp only [result?, residue, sum_timeless, arithmetic_timeless,
      quotient_timeless, relate_timeless, Value.truthy_timeless,
      Value.equal_timeless apart sound other]
  simp only [apply, results, Value.kind_timeless]

theorem apply_foreign {op : BinaryOp} {left right value : Value}
    (applied : op.apply left right = .ok value) : value.Foreign := by
  unfold apply at applied
  split at applied
  · cases applied
    exact result?_foreign ‹_›
  · cases applied

end BinaryOp
end ChangeWatch
