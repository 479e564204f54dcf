import ChangeWatch.Expr.Evaluator
import ChangeWatch.Proofs.Unparsing.Shown

/-!
What an expression means is told by its canonical text, unless the text shows another expression.
-/
namespace ChangeWatch

/-- Of expressions that call no property and have no infinite number, the canonical text carries the
meaning: if two accepted texts have one canonical text, then they evaluate alike, in every way and wherever
they are evaluated. -/
theorem evaluate_of_canonical {text text' location location' : String} {source source' : Source}
    (read : parse .binding text location = .ok source)
    (read' : parse .binding text' location' = .ok source') (overt : source.expr.Overt)
    (overt' : source'.expr.Overt) (same : source.canonical = source'.canonical) (strategy : Strategy)
    (setting : Setting σ π) (place : Place) (number : Nat) :
    (Evaluator.make strategy source place).evaluate setting place number =
      (Evaluator.make strategy source' place).evaluate setting place number := by
  have one : source.expr = source'.expr := by
    rw [← overt.shown_eq, (canonical_eq_iff read read').1 same, overt'.shown_eq]
  cases strategy with
  | interpreted => simp only [Evaluator.make, Evaluator.evaluate, one]
  | compiled => simp only [Evaluator.make, Evaluator.evaluate, one]

namespace Masked

/-- An application without objects and functions. The context is a map with the number 1 at `a.b`. -/
def setting : Setting Unit Unit where
  host := .ofFields (fun _ _ => throw (.host "no function")) (fun _ _ => throw (.host "no object"))
    (fun _ _ => []) (fun _ => 0)
  pipes := .none
  scope := { context := .map (.host 0) [("a", .map (.host 1) [("b", .int 1)])] }

/-- The first evaluation of an expression there. -/
def outcome (strategy : Strategy) (source : Source) : Except EvalError Outcome :=
  ((Evaluator.make strategy source (.host 0)).evaluate setting (.host 0) 0 ((), ())).1

def spaced : Source where
  expr := .pipe (.map [("true", .binary .add (.property (.name "a") "b") (.literal (.str "x\n")))]) "p"
    [.method .implicit "f" [.literal .null]] 0
  text := "\x7b 'true' :a . b+'x\\n' \x7d|p:f( undefined )"
  location := "view"
  slots := 1

/-- The same expression without its blanks. -/
def dense : Source where
  expr := spaced.expr
  text := "(\x7b\"true\":(a.b+\"x\\n\")\x7d|p:(f(null)))"
  location := "view"
  slots := 1

/-- A property that is called as a function. -/
def applied : Source where
  expr := .apply (.property (.name "a") "b") []
  text := "(a.b)()"
  location := "view"
  slots := 0

/-- A method that is called. -/
def invoked : Source where
  expr := .method (.name "a") "b" []
  text := "a.b()"
  location := "view"
  slots := 0

end Masked

open Masked in
/-- Blanks, quotes and parentheses make no difference. -/
theorem evaluate_of_canonical_spaced :
    parse .binding spaced.text "view" = .ok spaced ∧ parse .binding dense.text "view" = .ok dense ∧
      spaced.expr.Overt ∧ dense.expr.Overt ∧ spaced.canonical = dense.canonical ∧
      (Evaluator.make .compiled spaced (.host 0)).evaluate setting (.host 0) 0 =
        (Evaluator.make .compiled dense (.host 0)).evaluate setting (.host 0) 0 := by
  have read : parse .binding spaced.text "view" = .ok spaced := by cbv
  have read' : parse .binding dense.text "view" = .ok dense := by cbv
  have overt : spaced.expr.Overt := by
    simp [spaced, Expr.Overt, Expr.OvertAll, Expr.OvertEntries, Expr.name, Value.IsFinite]
  exact ⟨read, read', overt, overt, rfl,
    evaluate_of_canonical read read' overt overt rfl .compiled setting (.host 0) 0⟩

open Masked in
/-- A property in parentheses that is called has the canonical text of a method, but it is evaluated
differently: when it is no function, the error names the whole property and not the member alone. -/
theorem canonical_hides_call :
    parse .binding applied.text "view" = .ok applied ∧ parse .binding invoked.text "view" = .ok invoked ∧
      applied.canonical = invoked.canonical ∧ ∀ strategy,
        outcome strategy applied = .error (.value (.notCallable "a.b" .int)) ∧
        outcome strategy invoked = .error (.value (.notCallable "b" .int)) ∧
        outcome strategy applied ≠ outcome strategy invoked := by
  refine ⟨by cbv, by cbv, rfl, fun strategy => ?_⟩
  have apart : (Except.error (.value (.notCallable "a.b" .int)) : Except EvalError Outcome) ≠
      .error (.value (.notCallable "b" .int)) := by
    simp only [ne_eq, Except.error.injEq, EvalError.value.injEq, ValueError.notCallable.injEq]
    decide
  cases strategy <;> exact ⟨rfl, rfl, apart⟩

end ChangeWatch
