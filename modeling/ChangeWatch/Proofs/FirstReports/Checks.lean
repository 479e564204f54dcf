import ChangeWatch.Proofs.Delivery.Check
import ChangeWatch.Proofs.Effects
import ChangeWatch.Proofs.FirstReports.Roots
import ChangeWatch.Proofs.Visits.Ticks

/-!
Expressions of which nothing has been taken in. Nothing is remembered of them, and a pipe at the root
has yet to be made. Whatever such an expression evaluates to is news, and a detection that gets through
reports it. A failing evaluation takes nothing in, and neither does a verification without a pipe at the
root.
-/
namespace ChangeWatch

theorem Expr.rootEmpty_of_unpiped {e : Expr} (unpiped : e.isPipe = false)
    (slots : List (PipeSlot κ)) : e.RootEmpty slots := by
  rintro exp name args index rfl
  cases unpiped

namespace Binding

/-- Nothing of the expression has been taken in. -/
structure Due (binding : Binding κ) : Prop where
  previous : binding.previous = .uninitialized
  root : binding.evaluator.source.expr.RootEmpty binding.slots

theorem due_of_forgetful {binding : Binding κ} (forgetful : binding.previous = .uninitialized ∧
    ∀ slot ∈ binding.slots, slot.pipe = none ∧ slot.last = .null) : binding.Due where
  previous := forgetful.1
  root _ _ _ _ _ slot found := (forgetful.2 slot (List.mem_of_getElem? found)).1

/-- The expression is evaluated by an evaluator of its own, and its slots have owners. -/
structure Formed (source : Source) (binding : Binding κ) : Prop where
  evaluator : ∃ strategy, binding.evaluator = .make strategy source (.part 0 binding.place)
  placed : ∃ owner, source.expr.Placed owner []

theorem formed_of_blank {binding : Binding κ} {strategy : Strategy} {place : Place}
    {record : BindingRecord} (made : binding.blank = .ofRecord strategy place record)
    (parsed : record.source.Parsed) : binding.Formed record.source := by
  obtain ⟨_, _, _, parsed⟩ := parsed
  exact ⟨⟨strategy, (made_of_blank made).1⟩, parse_placed parsed⟩

theorem Formed.source_eq {source : Source} {binding : Binding κ} (formed : binding.Formed source) :
    binding.evaluator.source = source := by
  obtain ⟨strategy, made⟩ := formed.evaluator
  rw [made, Evaluator.source_make]

variable {host : Host σ} {hosted : HostedPipes σ κ} {scope : Scope} {source : Source}
  {binding evaluated : Binding κ} {result : Except EvalError Outcome} {state later : σ}

/-- The evaluation of an expression that is due finds a value or fails. It is due again if it failed, or
if there is no pipe at the root. -/
theorem Due.evaluate (due : binding.Due) (formed : binding.Formed source)
    (ran : binding.evaluate host (.default hosted) scope state = ((result, evaluated), later)) :
    (∃ value, result = .ok (.value value)) ∧ (source.expr.isPipe = false → evaluated.Due) ∨
      (∃ cause, result = .error cause) ∧ evaluated.Due := by
  obtain ⟨strategy, made⟩ := formed.evaluator
  obtain ⟨owner, placed⟩ := formed.placed
  obtain ⟨origin, evaluates⟩ := Evaluator.evaluate_make strategy source (.part 0 binding.place)
    binding.evaluations
  have root : source.expr.RootEmpty binding.slots := formed.source_eq ▸ due.root
  have found := Program.evaluate_rootEmpty host scope hosted (.part 1 binding.place) placed origin
    (.part binding.evaluations (.part 0 binding.place)) root state
  have again {slots : List (PipeSlot κ)} (empty : source.expr.RootEmpty slots) :
      { binding with slots, evaluations := binding.evaluations + 1 }.Due :=
    ⟨due.previous, formed.source_eq.symm ▸ empty⟩
  simp only [← evaluates, ← made] at found
  cases ran
  rcases found with ⟨value, same⟩ | ⟨⟨cause, same⟩, empty⟩
  · exact .inl ⟨⟨value, same⟩, fun unpiped => again (Expr.rootEmpty_of_unpiped unpiped _)⟩
  · exact .inr ⟨⟨cause, same⟩, again empty⟩

theorem judge_verify_left (binding : Binding κ) (result : Except EvalError Outcome) :
    (binding.judge .verify result).2 = binding := by
  generalize ran : binding.judge .verify result = ended
  obtain ⟨finding, after⟩ := ended
  cases Judged.of_judge ran <;> rfl

/-- An expression stays due if nothing is taken in when it is checked. -/
theorem Due.judge (due : binding.Due) (formed : binding.Formed source)
    (ran : binding.evaluate host (.default hosted) scope state = ((result, evaluated), later))
    {purpose : Purpose}
    (untaken : ∀ outcome, result = .ok outcome → purpose = .verify ∧ source.expr.isPipe = false) :
    (evaluated.judge purpose result).2.Due := by
  rcases due.evaluate formed ran with ⟨⟨value, rfl⟩, again⟩ | ⟨⟨cause, rfl⟩, again⟩
  · obtain ⟨rfl, unpiped⟩ := untaken _ rfl
    rw [judge_verify_left]
    exact again unpiped
  · exact again

end Binding

/-- Among changes of different expressions, one stands for its expression. -/
theorem filter_of_distinct {changes : List (Nat × ChangeRecord)} {position : Nat}
    {record : ChangeRecord} (distinct : (changes.map Prod.fst).Nodup)
    (member : (position, record) ∈ changes) :
    changes.filter (·.1 = position) = [(position, record)] := by
  obtain ⟨before, behind, rfl⟩ := List.append_of_mem member
  simp only [List.map_append, List.map_cons, List.nodup_append, List.nodup_cons] at distinct
  obtain ⟨-, ⟨fresh, -⟩, apart⟩ := distinct
  have none {others : List (Nat × ChangeRecord)} (absent : position ∉ others.map Prod.fst) :
      others.filter (·.1 = position) = [] := by
    apply List.filter_eq_nil_iff.mpr
    intro change among same
    rw [← of_decide_eq_true same] at absent
    exact absent (List.mem_map_of_mem among)
  have absent : position ∉ before.map Prod.fst := by
    intro among
    exact apart position among position List.mem_cons_self rfl
  rw [List.filter_append, List.filter_cons_of_pos (by simp), none absent, none fresh, List.nil_append]

namespace Detector

/-- Every expression is evaluated and judged in a check, unless the check fails before it. -/
theorem narrateFrom_each (host : Host σ) (detector : Detector σ κ) (scope : Scope) (purpose : Purpose)
    (pending : Pending) (count position : Nat) {bindings : List (Binding κ)} (state : σ) {index : Nat}
    {binding : Binding κ} (found : bindings[index]? = some binding) :
    let told := detector.narrateFrom host scope purpose pending count position bindings state
    (∃ error, told.1.1.1 = .error error) ∧ told.1.1.2[index]? = some binding ∨
      ∃ between result evaluated later,
        binding.evaluate host detector.registry scope between = ((result, evaluated), later) ∧
        .evaluated (position + index) result ∈ told.1.2 ∧
        told.1.1.2[index]? = some (evaluated.judge purpose result).2 := by
  induction bindings generalizing pending count position state index with
  | nil => cases found
  | cons first bindings ih =>
    rcases narrateFrom_cons host detector scope purpose pending count position first bindings state with
      ⟨error, after, -, told⟩ | ⟨kept, between, result, evaluated, later, -, ran, told⟩
    · rw [told]
      exact .inl ⟨⟨error, rfl⟩, found⟩
    · rw [told]
      rcases judged : evaluated.judge purpose result with ⟨finding, next⟩
      cases index with
      | zero =>
        cases found
        refine .inr ⟨between, result, evaluated, later, ran, ?_, ?_⟩ <;>
          cases finding <;> simp [judged]
      | succ index =>
        have shift : position + (index + 1) = position + 1 + index := by omega
        rw [shift]
        have others (pending : Pending) (count : Nat) := ih pending count (position + 1) later found
        cases finding with
        | failed error => exact .inl ⟨⟨error, rfl⟩, found⟩
        | same =>
          rcases others (pending.handFor first.group).2 count with
            failed | ⟨between, result, evaluated, later, ran, told, left⟩
          · exact .inl failed
          · exact .inr ⟨between, result, evaluated, later, ran, List.mem_append_right _ told, left⟩
        | changed record =>
          let handed := (pending.handFor first.group).2.push next.group position record
          rcases others handed (count + 1) with
            failed | ⟨between, result, evaluated, later, ran, told, left⟩
          · exact .inl failed
          · exact .inr ⟨between, result, evaluated, later, ran, List.mem_append_right _ told, left⟩

variable {host : Host σ} {detector after : Detector σ κ} {purpose : Purpose} {position : Nat}
  {events : List Event} {state later : σ}

/-- Nothing of the expression at a position has been taken in. -/
def Due (position : Nat) (detector : Detector σ κ) : Prop :=
  ∀ binding, detector.bindings[position]? = some binding → binding.Due

section Made

variable {proto : Proto σ κ} {hosted : HostedPipes σ κ} {place : Place} {dispatcher : Dispatcher σ}
  {records : List BindingRecord} {localNames : List String} {record : BindingRecord}

/-- The expression of a record, in a detector that was made from it some time ago. -/
theorem formed_of_blank
    (made : detector.blank = proto.instantiate place dispatcher records localNames)
    (parsed : record.source.Parsed) (listed : records[position]? = some record) :
    ∃ binding, detector.bindings[position]? = some binding ∧ binding.Formed record.source ∧
      binding.id = record.binding := by
  have drawn : (detector.bindings.map Binding.blank)[position]? =
      some (.ofRecord proto.strategy (.part position place) record) := by
    have bindings : detector.bindings.map Binding.blank = _ := congrArg Detector.bindings made
    simp [bindings, Proto.instantiate, listed]
  rw [List.getElem?_map] at drawn
  obtain ⟨binding, found, blank⟩ := Option.map_eq_some_iff.mp drawn
  exact ⟨binding, found, Binding.formed_of_blank blank parsed, congrArg Binding.id blank⟩

/-- The names of the expressions are those of the records. -/
theorem names_of_blank
    (made : detector.blank = proto.instantiate place dispatcher records localNames) (position : Nat) :
    detector.bindings[position]?.map Binding.id = records[position]?.map BindingRecord.binding := by
  have bindings : detector.bindings.map Binding.blank = _ := congrArg Detector.bindings made
  have named := congrArg (fun bindings : List (Binding κ) => bindings[position]?.map Binding.id) bindings
  simp only [Proto.instantiate, List.getElem?_map, List.getElem?_zipIdx, Option.map_map] at named
  exact named

end Made

variable {hosted : HostedPipes σ κ} {source : Source} {binding : Binding κ}
  (registry : detector.registry = .default hosted)
  (found : detector.bindings[position]? = some binding) (formed : binding.Formed source)
  (due : binding.Due)
include registry found formed due

/-- An expression stays due in a check that takes in nothing of it. -/
theorem narrate_due {result : Except CheckError Nat}
    (ran : detector.narrate host purpose state = (((result, after), events), later))
    (untaken : ∀ outcome, .evaluated position (.ok outcome) ∈ events →
      purpose = .verify ∧ source.expr.isPipe = false) : after.Due position := by
  intro left found'
  cases given : detector.scope with
  | none =>
    rw [narrate_of_none host given] at ran
    cases ran
    cases found.symm.trans found'
    exact due
  | some scope =>
    have each := narrateFrom_each host detector scope purpose {} 0 0 state found
    rw [narrate_of_scope host given] at ran
    rw [Nat.zero_add] at each
    generalize detector.narrateFrom host scope purpose {} 0 0 detector.bindings state = told at each ran
    cases ran
    rcases each with ⟨-, same⟩ | ⟨between, result, evaluated, later, ran, told, same⟩
    · cases same.symm.trans found'
      exact due
    · cases same.symm.trans found'
      rw [registry] at ran
      exact due.judge formed ran fun outcome passed => untaken outcome (passed ▸ told)

/-- A detection that gets through reports an expression that is due, once, with the value that it has
found. -/
theorem detect_reports {total : Nat} (hydrated : detector.isHydrated = true)
    (ran : detector.narrate host .detect state = (((.ok total, after), events), later)) :
    ∃ current, (Event.heardIn events).filter (·.1 = position) =
      [(position, { binding := binding.id, previous := .uninitialized, current })] := by
  obtain ⟨scope, given⟩ := Option.isSome_iff_exists.mp hydrated
  have each := narrateFrom_each host detector scope .detect {} 0 0 state found
  obtain ⟨progress, explains⟩ := narrateFrom_explained host detector scope .detect
    Pending.empty_sound 0 0 detector.bindings state
  rw [narrate_of_scope host given] at ran
  rw [Nat.zero_add] at each
  generalize detector.narrateFrom host scope .detect {} 0 0 detector.bindings state = told
    at each explains ran
  obtain ⟨⟨⟨result, bindings⟩, happened⟩, ended⟩ := told
  cases ran
  obtain ⟨-, -, told, -⟩ := explains.passes total rfl
  rcases each with ⟨⟨error, failed⟩, -⟩ | ⟨between, result, evaluated, later, ran, member, -⟩
  · cases failed
  · obtain ⟨one, here, rfl⟩ := (explains.evaluated_mem_iff told).mp member
    cases found.symm.trans (explains.getElem?_of_checked here).1
    rw [registry] at ran
    rcases due.evaluate formed ran with ⟨⟨value, came⟩, -⟩ | ⟨⟨cause, failed⟩, -⟩
    · have news : one.changeAt? = some
          (position, { binding := one.binding.id, previous := .uninitialized, current := value }) := by
        rw [Checked.changeAt?, Checked.change?, Except.ok.inj came, due.previous,
          explains.position_of_getElem? here]
        rfl
      simp only at told
      rw [told, Checked.heardIn_tell Pending.empty_sound, List.nil_append]
      refine ⟨value, filter_of_distinct explains.changes_distinct ?_⟩
      exact List.mem_filterMap.mpr ⟨one, List.mem_of_getElem? here, news⟩
    · cases failed

end Detector
end ChangeWatch
