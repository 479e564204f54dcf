import ChangeWatch.Detector.Check

/-!
What becomes of an outcome. It is judged in one of five ways, and only a detection that finds a change
leaves another expression behind: one that remembers the new value.
-/
namespace ChangeWatch.Binding

/-- How an outcome is judged, what is found, and what is left of the expression. -/
inductive Judged (binding : Binding κ) :
    Purpose → Except EvalError Outcome → Finding → Binding κ → Prop where
  | failed (purpose : Purpose) (cause : EvalError) :
    Judged binding purpose (.error cause)
      (.failed (.evaluation binding.evaluator.source.describe binding.id cause)) binding
  | idle (purpose : Purpose) : Judged binding purpose (.ok .noChange) .same binding
  | same (purpose : Purpose) {current : Value} (same : binding.previous.differsFrom current = false) :
    Judged binding purpose (.ok (.value current)) .same binding
  | offends {current : Value} (differs : binding.previous.differsFrom current = true) :
    Judged binding .verify (.ok (.value current)) (.failed (.changedAfterChecked
      binding.evaluator.source.describe binding.id binding.previous current)) binding
  | changed {current : Value} (differs : binding.previous.differsFrom current = true) :
    Judged binding .detect (.ok (.value current))
      (.changed { binding := binding.id, previous := binding.previous, current })
      { binding with previous := .set current }

theorem judged (binding : Binding κ) (purpose : Purpose) (result : Except EvalError Outcome) :
    Judged binding purpose result (binding.judge purpose result).1 (binding.judge purpose result).2 := by
  rcases result with cause | current | _
  · exact .failed purpose cause
  · cases differs : binding.previous.differsFrom current with
    | false =>
      simp only [judge, differs]
      exact .same purpose differs
    | true =>
      simp only [judge, differs]
      cases purpose with
      | detect => exact .changed differs
      | verify => exact .offends differs
  · exact .idle purpose

variable {binding after : Binding κ} {purpose : Purpose} {result : Except EvalError Outcome}
  {finding : Finding}

theorem Judged.of_judge (ran : binding.judge purpose result = (finding, after)) :
    Judged binding purpose result finding after := by
  have judged := binding.judged purpose result
  rwa [ran] at judged

theorem Judged.left (judged : Judged binding purpose result finding after) :
    ∃ previous, after = { binding with previous } := by
  cases judged <;> exact ⟨_, rfl⟩

/-- A verification finds no changes to hand over. -/
theorem judge_verify (binding after : Binding κ) (result : Except EvalError Outcome)
    (record : ChangeRecord) : binding.judge .verify result ≠ (.changed record, after) := by
  intro changed
  cases Judged.of_judge changed

section Checks

variable {host : Host σ} {registry : Registry σ κ} {scope : Scope} {state later : σ}

theorem check_eq (evaluated : binding.evaluate host registry scope state = ((result, after), later)) :
    binding.check host registry scope purpose state = (after.judge purpose result, later) := by
  simp only [check, Bind.bind, StateT.bind, evaluated]
  rfl

/-- A check is an evaluation and then a judgement of its outcome. -/
theorem of_check (ran : binding.check host registry scope purpose state = ((finding, after), later)) :
    ∃ result evaluated, binding.evaluate host registry scope state = ((result, evaluated), later) ∧
      evaluated.judge purpose result = (finding, after) := by
  rcases found : binding.evaluate host registry scope state with ⟨⟨result, evaluated⟩, last⟩
  rw [check_eq found] at ran
  obtain ⟨judged, rfl⟩ := Prod.mk.inj ran
  exact ⟨result, evaluated, rfl, judged⟩

theorem check_verify (record : ChangeRecord) :
    binding.check host registry scope .verify state ≠ ((.changed record, after), later) := by
  intro ran
  obtain ⟨result, evaluated, -, judged⟩ := of_check ran
  exact judge_verify evaluated after result record judged

end Checks
end ChangeWatch.Binding
