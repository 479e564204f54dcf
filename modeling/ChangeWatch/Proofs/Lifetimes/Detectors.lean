import ChangeWatch.Proofs.Flushes
import ChangeWatch.Proofs.Judgements
import ChangeWatch.Proofs.Lifetimes.Slots
import ChangeWatch.Tree.Basic

/-!
What becomes of the pipes of a detector. A check accounts for them wherever it stops, and a detector
without a context holds none.
-/
namespace ChangeWatch

open Journal (Handled)

/-- What the slots of an expression hold. -/
def Binding.holdings (binding : Binding κ) : List (List κ) := binding.slots.map PipeSlot.held

/-- What the slots of a detector hold. -/
def Detector.holdings (detector : Detector σ κ) : List (List κ) :=
  detector.bindings.flatMap Binding.holdings

/-- A detector whose pipes are in a journal that its dispatcher leaves alone. -/
structure Detector.Keeps (detector : Detector σ κ) (journal : σ → Journal κ) : Prop where
  registry : detector.registry.Keeps journal
  dispatcher : detector.dispatcher.Keeps journal

variable [DecidableEq κ] {journal : σ → Journal κ} {host : Host σ} {registry : Registry σ κ}

theorem Host.Keeps.along (host_keeps : host.Keeps journal) (slots : List (PipeSlot κ)) :
    host.Along fun state after => PipeSlot.Handles journal (state, slots) (after, slots) where
  call f args state := .of_eq (host_keeps.call f args state) _
  readField ref name state := .of_eq (host_keeps.readField ref name state) _
  readKeyed ref key state := .of_eq (host_keeps.readKeyed ref key state) _
  invoke ref name args state := .of_eq (host_keeps.invoke ref name args state) _

namespace Binding

theorem evaluate_handled (host_keeps : host.Keeps journal) (keeps : registry.Keeps journal)
    (scope : Scope) (binding : Binding κ) (state : σ) :
    Handled (journal state) (journal (binding.evaluate host registry scope state).2)
      binding.holdings (binding.evaluate host registry scope state).1.2.holdings := by
  let setting : Setting σ (List (PipeSlot κ)) :=
    { host, scope, pipes := PipeSlot.host registry (.part 1 binding.place) }
  have along : setting.Along (PipeSlot.Handles journal) :=
    { host := host_keeps.along
      apply := PipeSlot.host_handled keeps (.part 1 binding.place) }
  exact Evaluator.evaluate_along along (.part 0 binding.place) binding.evaluator
    binding.evaluations (state, binding.slots)

omit [DecidableEq κ] in
/-- Judging an outcome leaves the pipes alone. -/
theorem judge_holdings (purpose : Purpose) (result : Except EvalError Outcome)
    (binding : Binding κ) : (binding.judge purpose result).2.holdings = binding.holdings := by
  obtain ⟨previous, left⟩ := (binding.judged purpose result).left
  rw [left]
  rfl

theorem check_handled (host_keeps : host.Keeps journal) (keeps : registry.Keeps journal)
    (scope : Scope) (purpose : Purpose) (binding : Binding κ) (state : σ) :
    Handled (journal state) (journal (binding.check host registry scope purpose state).2)
      binding.holdings (binding.check host registry scope purpose state).1.2.holdings := by
  have evaluated := evaluate_handled host_keeps keeps scope binding state
  rcases found : binding.evaluate host registry scope state with ⟨⟨result, after⟩, later⟩
  rw [found] at evaluated
  rw [check_eq found, judge_holdings]
  exact evaluated

theorem clear_handled (keeps : registry.Keeps journal) (binding : Binding κ) (state : σ) :
    Handled (journal state) (journal (binding.clear registry state).2) binding.holdings
        (binding.clear registry state).1.holdings ∧
      (binding.clear registry state).1.holdings.flatten = [] := by
  obtain ⟨cleared, empty⟩ := PipeSlot.clearAll_handled keeps binding.slots state
  refine ⟨cleared, ?_⟩
  rw [List.flatten_eq_nil_iff]
  intro held member
  obtain ⟨slot, listed, rfl⟩ := List.mem_map.mp member
  exact empty slot listed

end Binding

namespace Buffer

variable {dispatcher : Dispatcher σ} (keeps : dispatcher.Keeps journal)
include keeps

omit [DecidableEq κ] in
theorem flush_keeps (buffer : Buffer) (state : σ) :
    journal (buffer.flush dispatcher state).2 = journal state :=
  flush_stays (K := fun later => journal later = journal state)
    (fun group changes later same => (keeps group changes later).trans same) rfl

omit [DecidableEq κ] in
theorem flushFor_keeps (next : Label) (buffer : Buffer) (state : σ) :
    journal (buffer.flushFor dispatcher next state).2 = journal state :=
  flushFor_stays (K := fun later => journal later = journal state)
    (fun group changes later same => (keeps group changes later).trans same) rfl next

end Buffer

namespace Detector

variable {detector : Detector σ κ}

theorem checkFrom_handled (host_keeps : host.Keeps journal) (keeps : detector.Keeps journal)
    (scope : Scope) (purpose : Purpose) (buffer : Buffer) (count : Nat)
    (bindings : List (Binding κ)) (state : σ) :
    Handled (journal state)
      (journal (checkFrom host detector scope purpose buffer count bindings state).2)
      (bindings.flatMap Binding.holdings)
      ((checkFrom host detector scope purpose buffer count bindings state).1.2.flatMap
        Binding.holdings) := by
  induction bindings generalizing buffer count state with
  | nil =>
    have kept := buffer.flush_keeps keeps.dispatcher state
    simp only [checkFrom, Bind.bind, StateT.bind]
    generalize buffer.flush detector.dispatcher state = flushed at kept ⊢
    obtain ⟨result, after⟩ := flushed
    cases result <;> exact .of_eq kept _
  | cons binding bindings ih =>
    have kept := buffer.flushFor_keeps keeps.dispatcher binding.group state
    simp only [checkFrom, Bind.bind, StateT.bind]
    generalize buffer.flushFor detector.dispatcher binding.group state = flushed at kept ⊢
    obtain ⟨result, between⟩ := flushed
    cases result with
    | error error => exact .of_eq kept _
    | ok buffer =>
      have checked := binding.check_handled host_keeps keeps.registry scope purpose between
      rw [show journal between = journal state from kept] at checked
      simp only [StateT.bind]
      generalize binding.check host detector.registry scope purpose between = ended at checked ⊢
      obtain ⟨⟨finding, binding'⟩, after⟩ := ended
      cases finding with
      | failed error => exact checked.append (.refl _ _)
      | same => exact checked.append (ih buffer count after)
      | changed record =>
        exact checked.append (ih (buffer.push binding'.group record) (count + 1) after)

theorem check_handled (host_keeps : host.Keeps journal) (keeps : detector.Keeps journal)
    (purpose : Purpose) (state : σ) :
    Handled (journal state) (journal (detector.check host purpose state).2) detector.holdings
      (detector.check host purpose state).1.2.holdings := by
  unfold check
  cases detector.scope with
  | none => exact .refl _ _
  | some scope =>
    exact checkFrom_handled host_keeps keeps scope purpose {} 0 detector.bindings state

omit [DecidableEq κ] in
/-- A check changes neither the registry nor the dispatcher. -/
theorem check_keeps (keeps : detector.Keeps journal) (purpose : Purpose) (state : σ) :
    (detector.check host purpose state).1.2.Keeps journal := by
  unfold check
  cases detector.scope <;> exact ⟨keeps.registry, keeps.dispatcher⟩

theorem clearAll_handled (keeps : registry.Keeps journal) (bindings : List (Binding κ))
    (state : σ) :
    Handled (journal state) (journal (clearAll registry bindings state).2)
        (bindings.flatMap Binding.holdings)
        ((clearAll registry bindings state).1.flatMap Binding.holdings) ∧
      ((clearAll registry bindings state).1.flatMap Binding.holdings).flatten = [] := by
  induction bindings generalizing state with
  | nil => exact ⟨.refl _ _, rfl⟩
  | cons binding bindings ih =>
    obtain ⟨cleared, empty⟩ := binding.clear_handled keeps state
    simp only [clearAll, Bind.bind, StateT.bind]
    generalize binding.clear registry state = first at cleared empty ⊢
    obtain ⟨binding', between⟩ := first
    obtain ⟨others, empties⟩ := ih between
    refine ⟨cleared.append others, ?_⟩
    change (binding'.holdings ++ _).flatten = []
    rw [List.flatten_append, empty]
    exact empties

/-- A detector that loses its context loses its pipes. -/
theorem dehydrate_handled (keeps : detector.Keeps journal) (state : σ) :
    Handled (journal state) (journal (detector.dehydrate state).2) detector.holdings
        (detector.dehydrate state).1.holdings ∧
      (detector.dehydrate state).1.holdings.flatten = [] :=
  clearAll_handled keeps.registry detector.bindings state

omit [DecidableEq κ] in
/-- A new detector has no pipes. -/
theorem holdings_instantiate (proto : Proto σ κ) (place : Place) (dispatcher : Dispatcher σ)
    (records : List BindingRecord) (localNames : List String) :
    (proto.instantiate place dispatcher records localNames).holdings.flatten = [] := by
  rw [List.flatten_eq_nil_iff]
  intro held member
  obtain ⟨binding, made, listed⟩ := List.mem_flatMap.mp member
  obtain ⟨⟨record, index⟩, -, rfl⟩ := List.mem_map.mp made
  obtain ⟨slot, replicated, rfl⟩ := List.mem_map.mp listed
  rw [List.eq_of_mem_replicate replicated]
  rfl

end Detector

/-- Destroying detectors one after the other destroys the pipes of all of them. -/
theorem Tree.dehydrateAll_handled (detectors : List (Detector σ κ))
    (keeps : ∀ detector ∈ detectors, detector.Keeps journal) (state : σ) :
    ∃ emptied : List (List κ), emptied.flatten = [] ∧
      Handled (journal state) (journal (Tree.dehydrateAll detectors state).2)
        (detectors.flatMap Detector.holdings) emptied := by
  induction detectors generalizing state with
  | nil => exact ⟨[], rfl, .refl _ _⟩
  | cons detector detectors ih =>
    obtain ⟨first, rest⟩ := List.forall_mem_cons.mp keeps
    obtain ⟨handled, empty⟩ := detector.dehydrate_handled first state
    simp only [Tree.dehydrateAll, Bind.bind, StateT.bind]
    generalize detector.dehydrate state = ended at handled empty ⊢
    obtain ⟨detector', between⟩ := ended
    obtain ⟨emptied, nothing, others⟩ := ih rest between
    refine ⟨detector'.holdings ++ emptied, ?_, handled.append others⟩
    rw [List.flatten_append, nothing, List.append_nil]
    exact empty

end ChangeWatch
