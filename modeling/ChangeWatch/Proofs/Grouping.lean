import ChangeWatch.Proofs.Progress
import ChangeWatch.Proofs.Recording
import Mathlib.Data.List.SplitBy

/-!
A detection that succeeds works through maximal runs of neighbouring expressions of one group. It
evaluates a whole run and then hands over what has changed there, if anything has, before it turns
to the next run. The buffer that is flushed late is thus invisible.
-/
namespace ChangeWatch

namespace Checked

def sameGroup (first second : Checked κ) : Bool :=
  decide (first.binding.group = second.binding.group)

/-- The maximal runs of neighbours of one group. -/
def runs (checked : List (Checked κ)) : List (List (Checked κ)) := checked.splitBy sameGroup

/-- The changes of some expressions, handed over together unless there are none. -/
def delivery (group : Label) (run : List (Checked κ)) : List Event :=
  match run.filterMap changeAt? with
  | [] => []
  | change :: changes => [.handed group (change :: changes)]

/-- What the grouping rule demands of a run. -/
def tellRun : List (Checked κ) → List Event
  | [] => []
  | first :: others =>
    (first :: others).map evaluation ++ delivery first.binding.group (first :: others)

/-- What is pending behind the evaluations of a run. -/
def pendingOf (group : Label) (run : List (Checked κ)) : Pending where
  group := if run.filterMap changeAt? = [] then none else some group
  changes := run.filterMap changeAt?

section Runs

variable {group : Label} {run : List (Checked κ)} {checked : Checked κ}

theorem hand_pendingOf (group : Label) (run : List (Checked κ)) :
    (pendingOf group run).hand = delivery group run := by
  cases changed : run.filterMap changeAt? <;> simp [Pending.hand, pendingOf, delivery, changed]

/-- The buffer is kept for an expression of its group. -/
theorem behind_same (run : List (Checked κ)) (same : checked.binding.group = group) :
    (pendingOf group run).handFor checked.binding.group = ([], pendingOf group run) ∧
      (pendingOf group run).behind checked = pendingOf group (run ++ [checked]) := by
  have kept : (pendingOf group run).handFor checked.binding.group = ([], pendingOf group run) := by
    cases changed : run.filterMap changeAt? <;>
      simp [Pending.handFor, pendingOf, changed, same]
  refine ⟨kept, ?_⟩
  rw [Pending.behind, kept]
  cases found : checked.change? with
  | none => simp [pendingOf, changeAt?, found]
  | some record =>
    cases changed : run.filterMap changeAt? <;>
      simp [pendingOf, Pending.push, changeAt?, found, changed, same]

/-- The buffer is emptied for an expression of another group. -/
theorem behind_other (run : List (Checked κ)) (other : checked.binding.group ≠ group) :
    (pendingOf group run).handFor checked.binding.group = (delivery group run, {}) ∧
      (pendingOf group run).behind checked = pendingOf checked.binding.group [checked] := by
  have emptied :
      (pendingOf group run).handFor checked.binding.group = (delivery group run, {}) := by
    cases changed : run.filterMap changeAt? with
    | nil => simp [Pending.handFor, pendingOf, delivery, changed]
    | cons change changes =>
      simp [Pending.handFor, Pending.hand, pendingOf, delivery, changed, other.symm]
  refine ⟨emptied, ?_⟩
  rw [Pending.behind, emptied]
  cases found : checked.change? <;> simp [pendingOf, Pending.push, changeAt?, found]

/-- Neighbours of one group are one run. -/
theorem tellRuns_of_uniform (uniform : ∀ checked ∈ run, checked.binding.group = group) :
    (runs run).flatMap tellRun = run.map evaluation ++ delivery group run := by
  cases run with
  | nil => rfl
  | cons first others =>
    have chain : (first :: others).IsChain fun first second => sameGroup first second = true := by
      apply List.Pairwise.isChain
      apply List.pairwise_of_forall_mem_list
      intro first member second other
      simp only [sameGroup, uniform first member, uniform second other, decide_true]
    have single : runs (first :: others) = [first :: others] :=
      List.splitBy_of_isChain (List.cons_ne_nil first others) chain
    rw [single, ← uniform first List.mem_cons_self]
    simp only [List.flatMap_cons, List.flatMap_nil, List.append_nil, tellRun]

theorem runs_append (uniform : ∀ checked ∈ run, checked.binding.group = group)
    (other : checked.binding.group ≠ group) (others : List (Checked κ)) :
    runs (run ++ checked :: others) = runs run ++ runs (checked :: others) := by
  apply List.splitBy_append_cons
  intro last isLast
  have member := List.mem_of_mem_getLast? isLast
  simp only [sameGroup, uniform last member, decide_eq_false_iff_not]
  exact other.symm

/-- Behind some expressions of one group, a check goes on as the grouping rule demands. -/
theorem tell_pendingOf (uniform : ∀ checked ∈ run, checked.binding.group = group)
    (others : List (Checked κ)) :
    run.map evaluation ++ tell (pendingOf group run) others =
      (runs (run ++ others)).flatMap tellRun := by
  induction others generalizing group run with
  | nil =>
    rw [List.append_nil, tellRuns_of_uniform uniform, tell, hand_pendingOf]
  | cons checked others ih =>
    rw [tell]
    by_cases same : checked.binding.group = group
    · obtain ⟨kept, behind⟩ := behind_same run same
      have longer : ∀ member ∈ run ++ [checked], member.binding.group = group := by
        simpa [same, or_imp, forall_and] using uniform
      have rest := ih longer
      rw [kept, behind]
      simpa only [List.map_append, List.map_cons, List.map_nil, List.append_assoc,
        List.nil_append, List.cons_append] using rest
    · obtain ⟨emptied, behind⟩ := behind_other run same
      have rest := @ih checked.binding.group [checked] (by simp)
      rw [emptied, behind, runs_append uniform same, List.flatMap_append,
        tellRuns_of_uniform uniform, List.append_assoc]
      exact congrArg (fun told => run.map evaluation ++ (delivery group run ++ told)) rest

theorem tell_by_runs (checked : List (Checked κ)) :
    tell {} checked = (runs checked).flatMap tellRun := by
  have group : Label := ⟨""⟩
  exact @tell_pendingOf _ group [] (by simp) checked

end Runs

theorem map_changeAt? (run : List (Checked κ)) :
    (run.filterMap changeAt?).map Prod.snd = run.filterMap change? := by
  rw [List.map_filterMap]
  refine congrArg (run.filterMap ·) (funext fun checked => ?_)
  rw [changeAt?, Option.map_map]
  exact Option.map_id'

theorem group_of_chain {first : Checked κ} {others : List (Checked κ)}
    (chain : (first :: others).IsChain fun first second => sameGroup first second = true) :
    ∀ member ∈ first :: others, member.binding.group = first.binding.group := by
  induction others generalizing first with
  | nil => simp
  | cons second others ih =>
    obtain ⟨same, chain⟩ := List.isChain_cons_cons.mp chain
    simp only [sameGroup, decide_eq_true_eq] at same
    intro member found
    rcases List.mem_cons.mp found with rfl | found
    · rfl
    · exact (ih chain member found).trans same.symm

/-- A delivery is not empty, and its changes are those of a run of its group. -/
theorem of_delivered {checked : List (Checked κ)} {call : Notification}
    (delivered : call ∈ ((runs checked).flatMap tellRun).flatMap Event.calls) :
    call.changes ≠ [] ∧ ∃ run ∈ runs checked, call.changes = run.filterMap change? ∧
      ∀ member ∈ run, member.binding.group = call.group := by
  obtain ⟨event, told, called⟩ := List.mem_flatMap.mp delivered
  obtain ⟨run, member, told⟩ := List.mem_flatMap.mp told
  cases run with
  | nil => cases told
  | cons first others =>
    have uniform := group_of_chain (List.isChain_of_mem_splitBy member)
    have handed : event ∈ (first :: others).map evaluation ∨
        event ∈ delivery first.binding.group (first :: others) := List.mem_append.mp told
    rcases handed with evaluated | handed
    · obtain ⟨passed, -, rfl⟩ := List.mem_map.mp evaluated
      cases called
    · have changed := map_changeAt? (first :: others)
      cases found : (first :: others).filterMap changeAt? with
      | nil => simp [delivery, found] at handed
      | cons change rest =>
        simp only [delivery, found, List.mem_singleton] at handed
        subst handed
        cases List.mem_singleton.mp called
        rw [found] at changed
        exact ⟨List.cons_ne_nil change.2 _, _, member, changed, uniform⟩

end Checked

/-- The changes that are handed over are those in the calls. -/
theorem Event.changes_calls (events : List Event) :
    (events.flatMap calls).flatMap Notification.changes = (heardIn events).map Prod.snd := by
  rw [heardIn, List.flatMap_assoc, List.map_flatMap]
  refine congrArg (events.flatMap ·) (funext fun event => ?_)
  cases event with
  | handed group changes => exact List.append_nil _
  | evaluated position result => rfl
  | dropped changes => rfl

namespace Detector

variable {host : Host σ} {detector after : Detector σ κ} {scope : Scope} {state later : σ}
  {count : Nat}

/-- A detection that succeeds evaluates run by run and hands over, behind each run with a change, all
changes of the run at once. A recorder at the dispatcher sees these calls and no others. -/
theorem detect_by_runs (hydrated : detector.scope = some scope)
    (passed : detector.check host .detect state = ((.ok count, after), later)) :
    ∃ checked : List (Checked κ),
      checked.map Checked.binding = detector.bindings ∧
      checked.map Checked.position = List.range detector.bindings.length ∧
      let trace := (Checked.runs checked).flatMap Checked.tellRun
      let calls := trace.flatMap Event.calls
      detector.Enacts host scope trace state later ∧
      (∀ log, (detector.recorded id).check host.beside .detect (state, log) =
        ((.ok count, after.recorded id), (later, log ++ calls))) ∧
      after = { detector with bindings := checked.map Checked.after } ∧
      count = (calls.flatMap Notification.changes).length ∧
      ∀ call ∈ calls, call.changes ≠ [] ∧ ∃ run ∈ Checked.runs checked,
        call.changes = run.filterMap Checked.change? ∧
        ∀ member ∈ run, member.binding.group = call.group := by
  obtain ⟨progress, explains⟩ := narrateFrom_explained host detector scope .detect
    Pending.empty_sound 0 0 detector.bindings state
  have enacts := narrateFrom_enacts host detector scope .detect {} 0 (List.drop_zero) state
  have told := narrate_of_scope host hydrated .detect state
  rcases ran : detector.narrateFrom host scope .detect {} 0 0 detector.bindings state with
    ⟨⟨⟨result, bindings⟩, events⟩, done⟩
  rw [ran] at told explains enacts
  rw [narrate_erases, told] at passed
  cases passed
  obtain ⟨all, left, events_eq, counted⟩ := explains.passes count rfl
  have found := explains.found
  have leaves := explains.leaves
  rw [all, List.append_nil] at found
  rw [left, List.append_nil] at leaves
  rw [Checked.tell_by_runs] at events_eq
  subst leaves events_eq
  refine ⟨progress.checked, found, ?_, enacts, fun log => ?_, rfl, ?_, fun _ => Checked.of_delivered⟩
  · rw [explains.positions, List.range_eq_range', ← found, List.length_map]
  · rw [check_recorded, told]
    simp only [Event.notes, List.map_id]
  · rw [Event.changes_calls, List.length_map, ← Checked.tell_by_runs,
      Checked.heardIn_tell Pending.empty_sound, counted]
    simp only [Progress.changes, List.nil_append, Nat.zero_add]

end Detector

/-- An application without objects and functions. -/
def Host.bare : Host σ where
  call _ _ := throw (.host "no such function")
  readField ref name := throw (.unknownField ref.typeName name)
  readKeyed ref key := throw (.unknownField ref.typeName key.display)
  invoke ref name _ := throw (.unknownField ref.typeName name)
  fields _ _ := []
  nesting _ := 0

/-- An expression without pipes that has not been evaluated yet. -/
def Binding.fresh (id group : String) (expr : Expr) : Binding Empty where
  id := ⟨id⟩
  group := ⟨group⟩
  evaluator := .interpreter { expr, text := id, location := "", slots := 0 }
  place := .detector 0
  slots := []

/-- A dispatcher that writes its calls into the application. -/
def Dispatcher.logging : Dispatcher ChangeLog := fun group changes log =>
  (.ok (), log ++ [({ group, changes } : Notification)])

/-- A detector of some expressions over no context, whose dispatcher writes its calls down. -/
def Detector.watching (bindings : List (Binding Empty)) : Detector ChangeLog Empty where
  name := "watching"
  registry := .default { supports := nofun, transform := nofun, destroy := nofun }
  dispatcher := .logging
  bindings := bindings
  localNames := []
  scope := some { context := .null }

namespace Detector

/-- Three changes in two runs are handed over in two calls. -/
theorem detect_by_runs_three :
    let three := watching [.fresh "a" "left" .implicit, .fresh "b" "left" (.literal (.bool true)),
      .fresh "c" "right" .implicit]
    let calls : ChangeLog := [
      { group := ⟨"left"⟩
        changes := [{ binding := ⟨"a"⟩, previous := .uninitialized, current := .null },
          { binding := ⟨"b"⟩, previous := .uninitialized, current := .bool true }] },
      { group := ⟨"right"⟩
        changes := [{ binding := ⟨"c"⟩, previous := .uninitialized, current := .null }] }]
    ∃ checked : List (Checked Empty),
      checked.map Checked.position = [0, 1, 2] ∧
      three.Enacts .bare { context := .null } ((Checked.runs checked).flatMap Checked.tellRun) []
        calls ∧
      ((Checked.runs checked).flatMap Checked.tellRun).flatMap Event.calls = calls := by
  intro three calls
  have passed : three.check .bare .detect [] = ((.ok 3, _), calls) := rfl
  obtain ⟨checked, -, positions, enacts, recorded, -⟩ := detect_by_runs rfl passed
  have logged : ((three.recorded id).check (Host.bare.beside) .detect ([], [])).2.2 = calls := rfl
  rw [recorded] at logged
  exact ⟨checked, positions, enacts, logged⟩

end Detector
end ChangeWatch
