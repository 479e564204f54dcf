import ChangeWatch.Proofs.Standstill

/-!
Checks that fail. A check passes expressions one by one, and what it makes of those that it has passed
does not depend on the others, so a failure leaves them as a check without failure would. The expression
that fails remembers what it remembered before, and the expressions behind it are as they were.
-/
namespace ChangeWatch

/-- An expression that fails remembers what it remembered before. -/
theorem Binding.previous_of_failed {host : Host σ} {registry : Registry σ κ} {scope : Scope}
    {purpose : Purpose} {binding after : Binding κ} {cause : CheckError} {state later : σ}
    (ran : binding.check host registry scope purpose state = ((.failed cause, after), later)) :
    after.previous = binding.previous := by
  obtain ⟨result, between, evaluated, judged⟩ := of_check ran
  have kept : between.previous = binding.previous := by
    cases evaluated
    rfl
  rw [← kept]
  cases Judged.of_judge judged <;> rfl

namespace Detector

/-- Expressions that a check passes in order, and what it leaves of them, from a buffer and a state to
others. -/
inductive Passes (host : Host σ) (detector : Detector σ κ) (scope : Scope) (purpose : Purpose) :
    Buffer → σ → List (Binding κ) → List (Binding κ) → Buffer → σ → Prop where
  | nil (buffer : Buffer) (state : σ) :
    Passes host detector scope purpose buffer state [] [] buffer state
  | same {buffer kept pending : Buffer} {binding after : Binding κ}
    {bindings afters : List (Binding κ)} {state between middle later : σ}
    (flushed : buffer.flushFor detector.dispatcher binding.group state = (.ok kept, between))
    (ran : binding.check host detector.registry scope purpose between = ((.same, after), middle))
    (rest : Passes host detector scope purpose kept middle bindings afters pending later) :
    Passes host detector scope purpose buffer state (binding :: bindings) (after :: afters) pending
      later
  | changed {buffer kept pending : Buffer} {binding after : Binding κ} {record : ChangeRecord}
    {bindings afters : List (Binding κ)} {state between middle later : σ}
    (flushed : buffer.flushFor detector.dispatcher binding.group state = (.ok kept, between))
    (ran : binding.check host detector.registry scope purpose between =
      ((.changed record, after), middle))
    (rest : Passes host detector scope purpose (kept.push after.group record) middle bindings afters
      pending later) :
    Passes host detector scope purpose buffer state (binding :: bindings) (after :: afters) pending
      later

/-- How a check breaks off: the dispatcher refuses the changes collected so far, before an expression of
another group or at the end, or an expression fails. Expressions that are still to be checked come with
what the check leaves of them. -/
inductive Breaks (host : Host σ) (detector : Detector σ κ) (scope : Scope) (purpose : Purpose)
    (pending : Buffer) (state : σ) (cause : CheckError) (later : σ) :
    List (Binding κ) → List (Binding κ) → Prop where
  | atEnd (refused : pending.flush detector.dispatcher state = (.error cause, later)) :
    Breaks host detector scope purpose pending state cause later [] []
  | before {binding : Binding κ} (others : List (Binding κ))
    (refused : pending.flushFor detector.dispatcher binding.group state = (.error cause, later)) :
    Breaks host detector scope purpose pending state cause later (binding :: others)
      (binding :: others)
  | within {binding after : Binding κ} {kept : Buffer} {between : σ} (others : List (Binding κ))
    (flushed : pending.flushFor detector.dispatcher binding.group state = (.ok kept, between))
    (ran : binding.check host detector.registry scope purpose between =
      ((.failed cause, after), later))
    (remembers : after.previous = binding.previous) :
    Breaks host detector scope purpose pending state cause later (binding :: others)
      (after :: others)

variable {host : Host σ} {detector : Detector σ κ} {scope : Scope} {purpose : Purpose}
  {buffer kept pending : Buffer} {state later : σ} {done passed : List (Binding κ)}

/-- A check goes on behind the expressions that it passes, whatever these others are. -/
theorem Passes.checkFrom (passes : Passes host detector scope purpose buffer state done passed pending
    later) (count : Nat) : ∃ more, ∀ others,
      detector.checkFrom host scope purpose buffer count (done ++ others) state =
        let rest := detector.checkFrom host scope purpose pending more others later
        ((rest.1.1, passed ++ rest.1.2), rest.2) := by
  induction passes generalizing count with
  | nil => exact ⟨count, fun _ => rfl⟩
  | same flushed ran _ ih =>
    obtain ⟨more, goes⟩ := ih count
    refine ⟨more, fun others => ?_⟩
    rw [List.cons_append, checkFrom_cons count _ flushed ran]
    simp only [goes, List.cons_append]
  | changed flushed ran _ ih =>
    obtain ⟨more, goes⟩ := ih (count + 1)
    refine ⟨more, fun others => ?_⟩
    rw [List.cons_append, checkFrom_cons count _ flushed ran]
    simp only [goes, List.cons_append]

theorem Passes.length_eq (passes : Passes host detector scope purpose buffer state done passed pending
    later) : passed.length = done.length := by
  induction passes with
  | nil => rfl
  | same _ _ _ ih => exact congrArg (· + 1) ih
  | changed _ _ _ ih => exact congrArg (· + 1) ih

/-- Which expressions are checked is said beside the detector. -/
theorem checkFrom_bindings (host : Host σ) (detector : Detector σ κ) (others : List (Binding κ))
    (scope : Scope) (purpose : Purpose) (buffer : Buffer) (count : Nat) (bindings : List (Binding κ)) :
    checkFrom host { detector with bindings := others } scope purpose buffer count bindings =
      detector.checkFrom host scope purpose buffer count bindings := by
  induction bindings generalizing buffer count with
  | nil => rfl
  | cons binding bindings ih => simp only [checkFrom, ih]

/-- What a check makes of the expressions that it passes is what it would make of them in front of any
others. -/
theorem Passes.check (hydrated : detector.scope = some scope)
    (passes : Passes host detector scope purpose {} state done passed pending later)
    (others : List (Binding κ)) :
    ∃ left, (check host purpose { detector with bindings := done ++ others } state).1.2.bindings =
      passed ++ left := by
  obtain ⟨more, goes⟩ := passes.checkFrom 0
  let detector' : Detector σ κ := { detector with bindings := done ++ others }
  have ran := @check_of_scope _ _ detector' _ host hydrated purpose state
  rw [checkFrom_bindings, goes] at ran
  exact ⟨_, congrArg (fun ran => ran.1.2.bindings) ran⟩

/-- Every check that fails passes some expressions and breaks off then. -/
theorem checkFrom_breaks {count : Nat} {bindings afters : List (Binding κ)} {cause : CheckError}
    (ran : detector.checkFrom host scope purpose buffer count bindings state =
      ((.error cause, afters), later)) :
    ∃ done passed rest left pending between, bindings = done ++ rest ∧ afters = passed ++ left ∧
      Passes host detector scope purpose buffer state done passed pending between ∧
      Breaks host detector scope purpose pending between cause later rest left := by
  induction bindings generalizing buffer count state afters with
  | nil =>
    rw [checkFrom_nil] at ran
    rcases flushed : buffer.flush detector.dispatcher state with ⟨result, after⟩
    rw [flushed] at ran
    cases result <;> cases ran
    exact ⟨[], [], [], [], buffer, state, rfl, rfl, .nil buffer state, .atEnd flushed⟩
  | cons binding bindings ih =>
    rcases flushed : buffer.flushFor detector.dispatcher binding.group state with ⟨result, between⟩
    cases result with
    | error error =>
      rw [checkFrom_refused count bindings flushed] at ran
      cases ran
      exact ⟨[], [], _, _, buffer, state, rfl, rfl, .nil buffer state, .before bindings flushed⟩
    | ok kept =>
      rcases checked : binding.check host detector.registry scope purpose between with
        ⟨⟨finding, after⟩, middle⟩
      rw [checkFrom_cons count bindings flushed checked] at ran
      cases finding with
      | failed error =>
        cases ran
        exact ⟨[], [], _, _, buffer, state, rfl, rfl, .nil buffer state,
          .within bindings flushed checked (Binding.previous_of_failed checked)⟩
      | same =>
        rcases rest : detector.checkFrom host scope purpose kept count bindings middle with
          ⟨⟨result, others⟩, last⟩
        simp only [rest] at ran
        cases ran
        obtain ⟨done, passed, behind, left, pending, last, rfl, rfl, passes, breaks⟩ := ih rest
        exact ⟨binding :: done, after :: passed, behind, left, pending, last, rfl, rfl,
          .same flushed checked passes, breaks⟩
      | changed record =>
        rcases rest : detector.checkFrom host scope purpose (kept.push after.group record)
          (count + 1) bindings middle with ⟨⟨result, others⟩, last⟩
        simp only [rest] at ran
        cases ran
        obtain ⟨done, passed, behind, left, pending, last, rfl, rfl, passes, breaks⟩ := ih rest
        exact ⟨binding :: done, after :: passed, behind, left, pending, last, rfl, rfl,
          .changed flushed checked passes, breaks⟩

end Detector
end ChangeWatch
