import ChangeWatch.Proofs.Judgements
import ChangeWatch.Proofs.Narration
import Mathlib.Data.List.Forall2

/-!
What a check does expression by expression. Every expression is either left alone, because the check
has failed before, or checked by itself in a state that the check has come to. A check in which every
expression is found as it is succeeds and hands nothing over.
-/
namespace ChangeWatch

open List (Forall₂)

namespace Detector

variable {host : Host σ} {detector : Detector σ κ} {scope : Scope} {purpose : Purpose}
  {buffer kept : Buffer} {binding after : Binding κ} {state between later : σ}

theorem checkFrom_nil (host : Host σ) (detector : Detector σ κ) (scope : Scope) (purpose : Purpose)
    (buffer : Buffer) (count : Nat) (state : σ) :
    detector.checkFrom host scope purpose buffer count [] state =
      let flushed := buffer.flush detector.dispatcher state
      ((flushed.1.map fun _ => count, []), flushed.2) := by
  simp only [checkFrom, Bind.bind, StateT.bind]
  rcases buffer.flush detector.dispatcher state with ⟨result, after⟩
  cases result <;> rfl

theorem checkFrom_refused {error : CheckError} (count : Nat) (bindings : List (Binding κ))
    (refused : buffer.flushFor detector.dispatcher binding.group state = (.error error, between)) :
    detector.checkFrom host scope purpose buffer count (binding :: bindings) state =
      ((.error error, binding :: bindings), between) := by
  simp only [checkFrom, Bind.bind, StateT.bind, refused]
  rfl

theorem check_of_none (host : Host σ) (bare : detector.scope = none) (purpose : Purpose)
    (state : σ) :
    detector.check host purpose state = ((.ok 0, detector), state) := by
  simp only [check, bare]
  rfl

theorem check_of_scope (host : Host σ) (hydrated : detector.scope = some scope)
    (purpose : Purpose) (state : σ) :
    detector.check host purpose state =
      let ran := detector.checkFrom host scope purpose {} 0 detector.bindings state
      ((ran.1.1, { detector with bindings := ran.1.2 }), ran.2) := by
  simp only [check, hydrated, Bind.bind, StateT.bind]
  rfl

/-- A check from some expression on, by what becomes of that expression. -/
theorem checkFrom_cons {finding : Finding} (count : Nat) (bindings : List (Binding κ))
    (flushed : buffer.flushFor detector.dispatcher binding.group state = (.ok kept, between))
    (ran : binding.check host detector.registry scope purpose between =
      ((finding, after), later)) :
    detector.checkFrom host scope purpose buffer count (binding :: bindings) state =
      match finding with
      | .failed error => ((.error error, after :: bindings), later)
      | .same =>
        let rest := detector.checkFrom host scope purpose kept count bindings later
        ((rest.1.1, after :: rest.1.2), rest.2)
      | .changed record =>
        let rest := detector.checkFrom host scope purpose (kept.push after.group record)
          (count + 1) bindings later
        ((rest.1.1, after :: rest.1.2), rest.2) := by
  simp only [checkFrom, Bind.bind, StateT.bind, flushed, ran]
  cases finding <;> rfl

/-- How one expression fares in a check with some result. -/
inductive Fares (host : Host σ) (registry : Registry σ κ) (scope : Scope) (purpose : Purpose)
    (K : σ → Prop) (result : Except CheckError Nat) : Binding κ → Binding κ → Prop where
  | left (binding : Binding κ) {error : CheckError} (failed : result = .error error) :
    Fares host registry scope purpose K result binding binding
  | checked {binding after : Binding κ} {state later : σ} {finding : Finding} (holds : K state)
    (ran : binding.check host registry scope purpose state = ((finding, after), later))
    (fine : ∀ total, result = .ok total → ∀ error, finding ≠ .failed error) :
    Fares host registry scope purpose K result binding after

theorem Fares.all_left {K : σ → Prop} {registry : Registry σ κ} (error : CheckError)
    (bindings : List (Binding κ)) :
    Forall₂ (Fares host registry scope purpose K (.error error)) bindings bindings :=
  List.forall₂_same.mpr fun binding _ => .left binding rfl

theorem Fares.exists_of_mem {K : σ → Prop} {registry : Registry σ κ}
    {result : Except CheckError Nat} {bindings afters : List (Binding κ)}
    (fares : Forall₂ (Fares host registry scope purpose K result) bindings afters)
    (member : after ∈ afters) :
    ∃ binding ∈ bindings, Fares host registry scope purpose K result binding after := by
  obtain ⟨index, bound, rfl⟩ := List.getElem_of_mem member
  have within : index < bindings.length := fares.length_eq ▸ bound
  exact ⟨bindings[index], List.getElem_mem within, fares.get within bound⟩

/-- In a check, every expression is checked by itself, up to the first failure. -/
theorem checkFrom_fares {K : σ → Prop}
    (calls : ∀ group changes state, K state → K (detector.dispatcher group changes state).2)
    {bindings : List (Binding κ)}
    (checks : ∀ binding ∈ bindings, ∀ state, K state →
      K (binding.check host detector.registry scope purpose state).2)
    (holds : K state) (buffer : Buffer) (count : Nat) :
    let ran := detector.checkFrom host scope purpose buffer count bindings state
    K ran.2 ∧
      Forall₂ (Fares host detector.registry scope purpose K ran.1.1) bindings ran.1.2 := by
  induction bindings generalizing buffer count state with
  | nil =>
    rw [checkFrom_nil]
    exact ⟨Buffer.flush_stays calls holds, .nil⟩
  | cons binding bindings ih =>
    have kept := @Buffer.flushFor_stays _ buffer _ state K calls holds binding.group
    cases flushed : buffer.flushFor detector.dispatcher binding.group state with
    | mk flush between =>
      rw [flushed] at kept
      cases flush with
      | error error =>
        rw [checkFrom_refused count bindings flushed]
        exact ⟨kept, Fares.all_left error _⟩
      | ok left =>
        obtain ⟨first, others⟩ := List.forall_mem_cons.mp checks
        have stays := first between kept
        cases ran : binding.check host detector.registry scope purpose between with
        | mk found later =>
          obtain ⟨finding, after⟩ := found
          rw [ran] at stays
          rw [checkFrom_cons count bindings flushed ran]
          cases finding with
          | failed error =>
            exact ⟨stays, .cons (.checked kept ran fun _ passed => by cases passed)
              (Fares.all_left error bindings)⟩
          | same =>
            obtain ⟨ends, rest⟩ := ih others stays left count
            exact ⟨ends, .cons (.checked kept ran fun _ _ _ failed => by cases failed) rest⟩
          | changed record =>
            obtain ⟨ends, rest⟩ := ih others stays (left.push after.group record) (count + 1)
            exact ⟨ends, .cons (.checked kept ran fun _ _ _ failed => by cases failed) rest⟩

/-- A verification does not call the dispatcher. -/
theorem checkFrom_verify (host : Host σ) (detector : Detector σ κ) (dispatcher : Dispatcher σ)
    (scope : Scope) (count : Nat) (bindings : List (Binding κ)) (state : σ) :
    detector.checkFrom host scope .verify {} count bindings state =
      checkFrom host { detector with dispatcher } scope .verify {} count bindings state := by
  induction bindings generalizing count state with
  | nil => rfl
  | cons binding bindings ih =>
    have flushed (dispatcher : Dispatcher σ) :
        Buffer.flushFor dispatcher binding.group {} state = (.ok {}, state) := rfl
    cases ran : binding.check host detector.registry scope .verify state with
    | mk found later =>
      obtain ⟨finding, after⟩ := found
      rw [checkFrom_cons count bindings (flushed _) ran,
        @checkFrom_cons _ _ host { detector with dispatcher } _ _ _ _ _ _ _ _ _ _ count bindings
          (flushed _) ran]
      cases finding with
      | failed error => rfl
      | same => simp only [ih]
      | changed record =>
        exact (Binding.check_verify record ran).elim

/-- In a check, every expression is checked by itself. Only detections call the dispatcher. -/
theorem check_fares {K : σ → Prop}
    (calls : purpose = .detect → ∀ group changes state, K state →
      K (detector.dispatcher group changes state).2)
    (checks : ∀ binding ∈ detector.bindings, ∀ state, K state →
      K (binding.check host detector.registry scope purpose state).2)
    (holds : K state) :
    let ran := detector.checkFrom host scope purpose {} 0 detector.bindings state
    K ran.2 ∧
      Forall₂ (Fares host detector.registry scope purpose K ran.1.1) detector.bindings ran.1.2 := by
  cases purpose with
  | detect => exact checkFrom_fares (calls rfl) checks holds {} 0
  | verify =>
    rw [checkFrom_verify host detector .silent]
    exact @checkFrom_fares _ _ host { detector with dispatcher := .silent } _ _ _ _
      (fun _ _ _ stays => stays) _ checks holds {} 0

/-- A check that finds every expression as it is. -/
theorem checkFrom_same {bindings afters : List (Binding κ)}
    (finds : Forall₂ (fun binding after => binding.check host detector.registry scope purpose state =
      ((.same, after), state)) bindings afters) (count : Nat) :
    detector.checkFrom host scope purpose {} count bindings state =
      ((.ok count, afters), state) := by
  induction finds with
  | nil => rw [checkFrom_nil, Buffer.flush_of_none rfl]; rfl
  | @cons binding after bindings afters ran _ ih =>
    have flushed : Buffer.flushFor detector.dispatcher binding.group {} state =
        (.ok {}, state) := rfl
    rw [checkFrom_cons count bindings flushed ran, ih]

/-- Nothing is handed over in a check that finds every expression as it is. -/
theorem narrateFrom_same {bindings afters : List (Binding κ)}
    (finds : Forall₂ (fun binding after => binding.check host detector.registry scope purpose state =
      ((.same, after), state)) bindings afters) (count position : Nat) :
    ∃ events, detector.narrateFrom host scope purpose {} count position bindings state =
        (((.ok count, afters), events), state) ∧ ∀ event ∈ events, event.calls = [] := by
  induction finds generalizing position with
  | nil => exact ⟨[], rfl, fun _ member => by cases member⟩
  | @cons binding after bindings afters ran _ ih =>
    rcases narrateFrom_cons host detector scope purpose {} count position binding bindings state with
      ⟨error, between, refused, -⟩ | ⟨kept, between, result, evaluated, later, flushed, found, told⟩
    · cases refused
    · cases flushed
      rw [Binding.check_eq found] at ran
      obtain ⟨judged, rfl⟩ := Prod.mk.inj ran
      obtain ⟨events, rest, silent⟩ := ih (position + 1)
      have handed : Pending.handFor {} binding.group = ([], {}) := rfl
      refine ⟨.evaluated position result :: events, ?_, List.forall_mem_cons.mpr ⟨rfl, silent⟩⟩
      rw [told, judged, handed]
      simp only [rest, List.nil_append, List.singleton_append]

end Detector
end ChangeWatch
