import ChangeWatch.Proofs.Standstill
import ChangeWatch.Proofs.Rehearsal.Bindings

/-!
Two detections of one detector, of which one comes behind a verification. A verification that succeeds
does what a detection would do. Behind one that fails, both detections come to the expression that
failed without anything to hand over, and go on alike from there.
-/
namespace ChangeWatch

open List (Forall₂)

/-- A dispatcher that may change the application, but puts no reported containers into it, and does not
ask which container of a change is which. -/
structure Dispatcher.Discreet (outlook : Outlook σ ν) (Alike : σ → σ → Prop)
    (dispatcher : Dispatcher σ) : Prop extends dispatcher.Heeds ChangeRecord.shape Alike where
  upholds : dispatcher.Upholds outlook

namespace Pending

variable {pending other : Pending}

/-- Pending changes that look the same are handed over alike. -/
theorem hand_shapes (same : pending.buffer.Match ChangeRecord.shape other.buffer) :
    pending.hand.flatMap Event.shapes = other.hand.flatMap Event.shapes := by
  obtain ⟨groups, records⟩ := same
  have groups : pending.group = other.group := groups
  have records : (pending.changes.map Prod.snd).map ChangeRecord.shape =
    (other.changes.map Prod.snd).map ChangeRecord.shape := records
  cases grouped : other.group with
  | none => simp only [hand, groups, grouped]
  | some group =>
    simp only [hand, groups, grouped, List.flatMap_singleton, Event.shapes, Event.calls, List.map_cons,
      List.map_nil, Notification.shape, records]

theorem handFor_shapes (same : pending.buffer.Match ChangeRecord.shape other.buffer) (next : Label) :
    (pending.handFor next).1.flatMap Event.shapes = (other.handFor next).1.flatMap Event.shapes ∧
      (pending.handFor next).2.buffer.Match ChangeRecord.shape (other.handFor next).2.buffer := by
  have groups : pending.group = other.group := same.group
  cases grouped : other.group with
  | none =>
    simp only [handFor, groups, grouped, true_and]
    exact same
  | some group =>
    simp only [handFor, groups, grouped]
    split
    · exact ⟨rfl, same⟩
    · exact ⟨hand_shapes same, .refl _ _⟩

theorem drop_shapes (pending : Pending) : pending.drop.flatMap Event.shapes = [] := by
  unfold drop
  cases pending.group <;> rfl

end Pending

namespace Detector

variable {host : Host σ} {detector : Detector σ κ} {scope : Scope} {purpose : Purpose}
  {pending : Pending} {binding after : Binding κ} {state between later : σ}

theorem narrateFrom_nil (host : Host σ) (detector : Detector σ κ) (scope : Scope) (purpose : Purpose)
    (pending : Pending) (count position : Nat) (state : σ) :
    detector.narrateFrom host scope purpose pending count position [] state =
      let flushed := pending.buffer.flush detector.dispatcher state
      (((flushed.1.map fun _ => count, []), pending.hand), flushed.2) := by
  simp only [narrateFrom, Bind.bind, StateT.bind]
  rcases pending.buffer.flush detector.dispatcher state with ⟨result, after⟩
  cases result <;> rfl

/-- A told check from some expression on, when the dispatcher refuses what is pending. -/
theorem narrateFrom_refused {error : CheckError} (count position : Nat) (bindings : List (Binding κ))
    (refused : pending.buffer.flushFor detector.dispatcher binding.group state =
      (.error error, between)) :
    detector.narrateFrom host scope purpose pending count position (binding :: bindings) state =
      (((.error error, binding :: bindings), pending.hand), between) := by
  simp only [narrateFrom, Bind.bind, StateT.bind, refused]
  rfl

/-- A told check from some expression on, by what becomes of that expression. -/
theorem narrateFrom_checked {finding : Finding} {kept : Buffer} (count position : Nat)
    (bindings : List (Binding κ))
    (flushed : pending.buffer.flushFor detector.dispatcher binding.group state = (.ok kept, between))
    (ran : binding.check host detector.registry scope purpose between = ((finding, after), later)) :
    ∃ events, events.flatMap Event.shapes =
        (pending.handFor binding.group).1.flatMap Event.shapes ∧
      detector.narrateFrom host scope purpose pending count position (binding :: bindings) state =
        let kept := (pending.handFor binding.group).2
        match finding with
        | .failed error => (((.error error, after :: bindings), events ++ kept.drop), later)
        | .same =>
          let rest := detector.narrateFrom host scope purpose kept count (position + 1) bindings later
          (((rest.1.1.1, after :: rest.1.1.2), events ++ rest.1.2), rest.2)
        | .changed record =>
          let rest := detector.narrateFrom host scope purpose (kept.push after.group position record)
            (count + 1) (position + 1) bindings later
          (((rest.1.1.1, after :: rest.1.1.2), events ++ rest.1.2), rest.2) := by
  obtain ⟨result, middle, evaluated, judged⟩ := Binding.of_check ran
  refine ⟨(pending.handFor binding.group).1 ++ [.evaluated position result], ?_, ?_⟩
  · simp [Event.shapes, Event.calls]
  · simp only [narrateFrom, Bind.bind, StateT.bind, flushed, evaluated, judged]
    cases finding <;> rfl

/-- A told check from an expression on that finds nothing, with nothing pending. -/
theorem narrateFrom_step_same (count position : Nat) (bindings : List (Binding κ))
    (ran : binding.check host detector.registry scope purpose state = ((.same, after), later)) :
    ∃ events, events.flatMap Event.shapes = [] ∧
      detector.narrateFrom host scope purpose {} count position (binding :: bindings) state =
        let rest := detector.narrateFrom host scope purpose {} count (position + 1) bindings later
        (((rest.1.1.1, after :: rest.1.1.2), events ++ rest.1.2), rest.2) := by
  have flushed : (Pending.buffer {}).flushFor detector.dispatcher binding.group state =
    (.ok {}, state) := rfl
  exact narrateFrom_checked count position bindings flushed ran

/-- A verification that succeeds does what a detection would do, which has nothing to hand over. -/
theorem checkFrom_rehearsed {count total : Nat} {bindings afters : List (Binding κ)}
    (ran : detector.checkFrom host scope .verify {} count bindings state = ((.ok total, afters), later))
    (position : Nat) :
    ∃ events, detector.narrateFrom host scope .detect {} count position bindings state =
        (((.ok total, afters), events), later) ∧ events.flatMap Event.shapes = [] := by
  induction bindings generalizing position state afters with
  | nil =>
    rw [checkFrom_nil, Buffer.flush_of_none rfl] at ran
    cases ran
    exact ⟨[], rfl, rfl⟩
  | cons binding bindings ih =>
    have flushed : Buffer.flushFor detector.dispatcher binding.group {} state = (.ok {}, state) := rfl
    rcases checked : binding.check host detector.registry scope .verify state with
      ⟨⟨finding, after⟩, middle⟩
    rw [checkFrom_cons count bindings flushed checked] at ran
    cases finding with
    | failed error => cases ran
    | changed record =>
      exact (Binding.check_verify record checked).elim
    | same =>
      rcases rest : detector.checkFrom host scope .verify {} count bindings middle with
        ⟨⟨result, others⟩, last⟩
      simp only [rest] at ran
      cases ran
      obtain ⟨events, silent, told⟩ := narrateFrom_step_same count position bindings
        (Binding.check_same checked)
      obtain ⟨more, toldRest, silentRest⟩ := ih rest (position + 1)
      refine ⟨events ++ more, ?_, by rw [List.flatMap_append, silent, silentRest]; rfl⟩
      simp only [told, toldRest]

/-- What a told check leaves: its result, the expressions, what happened, and the application. -/
abbrev Told (σ κ : Type) := ((Except CheckError Nat × List (Binding κ)) × List Event) × σ

/-- Two told checks with one result and notifications of one shape, which leave twins. -/
structure Told.Match (outlook : Outlook σ ν) (Alike : σ → σ → Prop) (scope : Scope) (seen : ν)
    (first second : Told σ Empty) : Prop where
  results : first.1.1.1 = second.1.1.1
  bindings : Forall₂ (Binding.Twins outlook (outlook.view first.2) (some scope)) first.1.1.2
    second.1.1.2
  shapes : first.1.2.flatMap Event.shapes = second.1.2.flatMap Event.shapes
  states : Alike first.2 second.2
  keeps : outlook.Keeps seen (outlook.view first.2)

section Twins

variable {hosted : HostedPipes σ Empty} {outlook : Outlook σ ν} {Alike : σ → σ → Prop} {seen : ν}
  {detector other : Detector σ Empty} {binding after binding' after' : Binding Empty}
  {bindings bindings' : List (Binding Empty)} {pending pending' : Pending} {state state' : σ}

theorem Told.Match.cons {first second : Told σ Empty} {later : ν} {events events' : List Event}
    (rest : Told.Match outlook Alike scope later first second)
    (keeps : outlook.Keeps seen later) (twins : after.Twins outlook later (some scope) after')
    (shapes : events.flatMap Event.shapes = events'.flatMap Event.shapes) :
    Told.Match outlook Alike scope seen
      (((first.1.1.1, after :: first.1.1.2), events ++ first.1.2), first.2)
      (((second.1.1.1, after' :: second.1.1.2), events' ++ second.1.2), second.2) where
  results := rest.results
  bindings := .cons (twins.mono rest.keeps) rest.bindings
  shapes := by simp only [List.flatMap_append, shapes, rest.shapes]
  states := rest.states
  keeps := keeps.trans rest.keeps

/-- Expressions that are left alone stay twins while the application changes. -/
theorem twins_mono {later : ν} (keeps : outlook.Keeps seen later)
    (twins : Forall₂ (Binding.Twins outlook seen (some scope)) bindings bindings') :
    Forall₂ (Binding.Twins outlook later (some scope)) bindings bindings' :=
  twins.imp fun _ _ twins => twins.mono keeps

/-- An expression in which two checks find the same, and those behind it. -/
theorem narrateFrom_match {finding finding' : Finding} {kept kept' : Buffer} {between between' : σ}
    {count position : Nat}
    (flushed : pending.buffer.flushFor detector.dispatcher binding.group state = (.ok kept, between))
    (flushed' : pending'.buffer.flushFor other.dispatcher binding'.group state' =
      (.ok kept', between'))
    (ran : binding.check outlook.host detector.registry scope .detect between =
      ((finding, after), between))
    (ran' : binding'.check outlook.host other.registry scope .detect between' =
      ((finding', after'), between'))
    (findings : finding.shape = finding'.shape)
    (twins : after.Twins outlook (outlook.view between) (some scope) after')
    (group : binding'.group = binding.group)
    (pendings : pending.buffer.Match ChangeRecord.shape pending'.buffer)
    (keeps : outlook.Keeps seen (outlook.view between)) (alike : Alike between between')
    (others : Forall₂ (Binding.Twins outlook (outlook.view between) (some scope)) bindings bindings')
    (rest : ∀ {pending pending' : Pending} (count : Nat),
      pending.buffer.Match ChangeRecord.shape pending'.buffer →
        Told.Match outlook Alike scope (outlook.view between)
          (detector.narrateFrom outlook.host scope .detect pending count (position + 1) bindings between)
          (other.narrateFrom outlook.host scope .detect pending' count (position + 1) bindings'
            between')) :
    Told.Match outlook Alike scope seen
      (detector.narrateFrom outlook.host scope .detect pending count position (binding :: bindings)
        state)
      (other.narrateFrom outlook.host scope .detect pending' count position (binding' :: bindings')
        state') := by
  obtain ⟨handed, left⟩ := Pending.handFor_shapes pendings binding.group
  obtain ⟨events, told, narrated⟩ := narrateFrom_checked count position bindings flushed ran
  obtain ⟨events', told', narrated'⟩ := narrateFrom_checked count position bindings' flushed' ran'
  rw [group] at told' narrated'
  have shapes := told.trans (handed.trans told'.symm)
  rw [narrated, narrated']
  cases finding with
  | failed error =>
    cases finding' <;> cases findings
    exact ⟨rfl, .cons twins others, by simp only [List.flatMap_append, Pending.drop_shapes, shapes],
      alike, keeps⟩
  | same =>
    cases finding' <;> cases findings
    exact (rest count left).cons keeps twins shapes
  | changed record =>
    cases finding' with
    | changed record' =>
      have records : record.shape = record'.shape := Finding.changed.inj findings
      refine (rest (count + 1) ?_).cons keeps twins shapes
      rw [Pending.buffer_push, Pending.buffer_push, twins.group]
      exact left.push after.group records
    | _ => cases findings

/-- Detections of twins go alike. -/
theorem narrateFrom_twins (discreet : detector.dispatcher.Discreet outlook Alike)
    (views : ∀ state other, Alike state other → outlook.view other = outlook.view state)
    (registry : detector.registry = .default hosted) (registry' : other.registry = .default hosted)
    (dispatcher : other.dispatcher = detector.dispatcher)
    (twins : Forall₂ (Binding.Twins outlook seen (some scope)) bindings bindings')
    (keeps : outlook.Keeps seen (outlook.view state))
    (pendings : pending.buffer.Match ChangeRecord.shape pending'.buffer) (alike : Alike state state')
    (count position : Nat) :
    Told.Match outlook Alike scope (outlook.view state)
      (detector.narrateFrom outlook.host scope .detect pending count position bindings state)
      (other.narrateFrom outlook.host scope .detect pending' count position bindings' state') := by
  have upholds (group : Label) (changes : List ChangeRecord) (later : σ)
      (kept : outlook.Keeps (outlook.view state) (outlook.view later)) :=
    kept.trans (discreet.upholds group changes later)
  induction twins generalizing pending pending' count position state state' with
  | nil =>
    obtain ⟨results, states⟩ := Buffer.flush_match discreet.toHeeds pendings alike
    rw [narrateFrom_nil, narrateFrom_nil, dispatcher]
    exact ⟨congrArg (Except.map fun _ => count) results, .nil, Pending.hand_shapes pendings, states,
      Buffer.flush_stays upholds (.refl outlook _)⟩
  | @cons binding binding' bindings bindings' first others ih =>
    obtain ⟨agree, between⟩ := Buffer.flushFor_match discreet.toHeeds pendings alike binding.group
    have kept := @Buffer.flushFor_stays _ pending.buffer _ state
      (fun later => outlook.Keeps (outlook.view state) (outlook.view later)) upholds (.refl outlook _)
      binding.group
    rcases flushed : pending.buffer.flushFor detector.dispatcher binding.group state with
      ⟨flush, later⟩
    rcases flushed' : pending'.buffer.flushFor detector.dispatcher binding.group state' with
      ⟨flush', later'⟩
    rw [flushed, flushed'] at agree between
    rw [flushed] at kept
    have flushed' : pending'.buffer.flushFor other.dispatcher binding'.group state' =
      (flush', later') := by rw [dispatcher, first.group, flushed']
    cases agree with
    | error error =>
      rw [narrateFrom_refused count position bindings flushed,
        narrateFrom_refused count position bindings' flushed']
      exact ⟨rfl, twins_mono (keeps.trans kept) (.cons first others), Pending.hand_shapes pendings,
        between, kept⟩
    | ok =>
      obtain ⟨finding, after, finding', after', ran, ran', findings, twins⟩ :=
        (first.mono (keeps.trans kept)).check hosted (views _ _ between)
      refine narrateFrom_match flushed flushed' (registry ▸ ran) (registry' ▸ ran') findings twins
        first.group pendings kept between (twins_mono (keeps.trans kept) others) fun count left => ?_
      exact ih (keeps.trans kept) left between count (position + 1) fun group changes last stays =>
        stays.trans (discreet.upholds group changes last)

/-- A detection of expressions, and one behind a verification of them that fails. -/
theorem narrateFrom_rehearsed (discreet : detector.dispatcher.Discreet outlook Alike)
    (views : ∀ state other, Alike state other → outlook.view other = outlook.view state)
    (reflexive : ∀ state, Alike state state)
    (registry : detector.registry = .default hosted) (registry' : other.registry = .default hosted)
    (dispatcher : other.dispatcher = detector.dispatcher)
    (fits : ∀ binding ∈ bindings, binding.Fit outlook (outlook.view state) (some scope))
    {cause : CheckError} (spares : ∀ binding ∈ bindings, cause.Spares binding) {count : Nat} {last : σ}
    (ran : detector.checkFrom outlook.host scope .verify {} count bindings state =
      ((.error cause, bindings'), last)) (position : Nat) :
    last = state ∧ (∃ after ∈ bindings', ¬ after.Rests outlook (outlook.view state) scope) ∧
      Told.Match outlook Alike scope (outlook.view state)
        (detector.narrateFrom outlook.host scope .detect {} count position bindings state)
        (other.narrateFrom outlook.host scope .detect {} count position bindings' state) := by
  induction bindings generalizing bindings' position with
  | nil =>
    rw [checkFrom_nil, Buffer.flush_of_none rfl] at ran
    cases ran
  | cons binding bindings ih =>
    obtain ⟨fit, fits⟩ := List.forall_mem_cons.mp fits
    obtain ⟨spare, spares⟩ := List.forall_mem_cons.mp spares
    have flushed (detector : Detector σ Empty) (group : Label) :
        Buffer.flushFor detector.dispatcher group {} state = (.ok {}, state) := rfl
    obtain ⟨finding, after, checked, -, rests⟩ := fit.check hosted .verify
    rw [checkFrom_cons count bindings (flushed detector _) (registry ▸ checked)] at ran
    cases finding with
    | changed record =>
      exact (Binding.check_verify record checked).elim
    | failed error =>
      cases ran
      obtain ⟨group, restless, finding, now, finding', now', ran, ran', findings, twins⟩ :=
        fit.failed_again hosted checked spare
      have others := List.forall₂_same.mpr fun binding member => (fits binding member).twins
      refine ⟨rfl, ⟨_, List.mem_cons_self, restless⟩, narrateFrom_match (flushed detector _)
        (flushed other _) (registry ▸ ran) (registry' ▸ ran') findings twins group (.refl _ _)
        (.refl outlook _) (reflexive state) others fun count left => ?_⟩
      exact narrateFrom_twins discreet views registry registry' dispatcher others (.refl outlook _)
        left (reflexive state) count (position + 1)
    | same =>
      rcases rest : detector.checkFrom outlook.host scope .verify {} count bindings state with
        ⟨⟨result, others⟩, later⟩
      simp only [rest] at ran
      cases ran
      obtain ⟨last, again, rested⟩ := (rests fun _ failed => by cases failed).check hosted .detect
      obtain ⟨events, silent, told⟩ := narrateFrom_step_same count position bindings
        (registry ▸ Binding.check_same checked)
      obtain ⟨events', silent', told'⟩ := narrateFrom_step_same count position others (registry' ▸ again)
      obtain ⟨rfl, ⟨after, member, restless⟩, behind⟩ := ih fits spares rest (position + 1)
      rw [told, told']
      exact ⟨rfl, ⟨after, List.mem_cons_of_mem _ member, restless⟩,
        behind.cons (.refl outlook _) rested.twins (silent.trans silent'.symm)⟩

/-- Two detectors with one dispatcher that is discreet, whose expressions are twins. -/
structure Twin (hosted : HostedPipes σ Empty) (outlook : Outlook σ ν) (Alike : σ → σ → Prop)
    (seen : ν) (detector other : Detector σ Empty) : Prop where
  registry : detector.registry = .default hosted
  registry' : other.registry = .default hosted
  discreet : detector.dispatcher.Discreet outlook Alike
  dispatcher : other.dispatcher = detector.dispatcher
  scope : other.scope = detector.scope
  mode : other.mode = detector.mode
  bindings : Forall₂ (Binding.Twins outlook seen detector.scope) detector.bindings other.bindings

/-- Two told checks of detectors with one result and notifications of one shape, which leave twins. -/
structure Matching (hosted : HostedPipes σ Empty) (outlook : Outlook σ ν) (Alike : σ → σ → Prop)
    (seen : ν) (first second : ((Except CheckError Nat × Detector σ Empty) × List Event) × σ) :
    Prop where
  results : first.1.1.1 = second.1.1.1
  twin : first.1.1.2.Twin hosted outlook Alike (outlook.view first.2) second.1.1.2
  shapes : first.1.2.flatMap Event.shapes = second.1.2.flatMap Event.shapes
  states : Alike first.2 second.2
  keeps : outlook.Keeps seen (outlook.view first.2)

theorem Twin.mono {later : ν} (twin : detector.Twin hosted outlook Alike seen other)
    (keeps : outlook.Keeps seen later) : detector.Twin hosted outlook Alike later other :=
  { twin with bindings := twin.bindings.imp fun _ _ twins => twins.mono keeps }

theorem Twin.setMode (twin : detector.Twin hosted outlook Alike seen other) (mode : Mode) :
    Twin hosted outlook Alike seen { detector with mode } { other with mode } :=
  { twin with mode := rfl }

theorem Fit.twin (fit : detector.Fit hosted outlook (Dispatcher.Discreet outlook Alike) seen) :
    detector.Twin hosted outlook Alike seen detector :=
  ⟨fit.registry, fit.registry, fit.dispatcher, rfl, rfl, rfl,
    List.forall₂_same.mpr fun binding member => (fit.bindings binding member).twins⟩

/-- What further checks leave of a detector at rest is a twin of it. -/
theorem Rested.twin (rested : detector.Rested hosted outlook seen other)
    (fit : detector.Fit hosted outlook (Dispatcher.Discreet outlook Alike) seen)
    (mode : other.mode = detector.mode) : detector.Twin hosted outlook Alike seen other := by
  refine ⟨rested.registry, rested.registry', fit.dispatcher, rested.dispatcher, rested.scope, mode, ?_⟩
  cases given : detector.scope with
  | none =>
    rw [rested.bare given]
    exact List.forall₂_same.mpr fun binding member => given ▸ (fit.bindings binding member).twins
  | some scope => exact (rested.bindings scope given).imp fun _ _ rested => rested.twins

/-- Detections of twins go alike. -/
theorem Twin.narrate (twin : detector.Twin hosted outlook Alike (outlook.view state) other)
    (views : ∀ state other, Alike state other → outlook.view other = outlook.view state)
    (alike : Alike state state') :
    Matching hosted outlook Alike (outlook.view state) (detector.narrate outlook.host .detect state)
      (other.narrate outlook.host .detect state') := by
  obtain ⟨registry, registry', discreet, dispatcher, scopes, mode, twins⟩ := twin
  cases given : detector.scope with
  | none =>
    rw [narrate_of_none _ given, narrate_of_none _ (scopes.trans given)]
    exact ⟨rfl, ⟨registry, registry', discreet, dispatcher, scopes, mode, twins⟩, rfl, alike,
      .refl outlook _⟩
  | some scope =>
    have ran := narrateFrom_twins discreet views registry registry' dispatcher (given ▸ twins)
      (.refl outlook _) (.refl _ (Pending.buffer {})) alike 0 0
    rw [narrate_of_scope _ given, narrate_of_scope _ (scopes.trans given)]
    exact ⟨ran.results, ⟨registry, registry', discreet, dispatcher, scopes, mode,
      given ▸ ran.bindings⟩, ran.shapes, ran.states, ran.keeps⟩

/-- A detection of a detector, and one behind a verification of it that fails and that leaves it in
some unrest. -/
theorem Fit.narrate_failed
    (fit : detector.Fit hosted outlook (Dispatcher.Discreet outlook Alike) (outlook.view state))
    (views : ∀ state other, Alike state other → outlook.view other = outlook.view state)
    (reflexive : ∀ state, Alike state state) {cause : CheckError}
    (spares : ∀ binding ∈ detector.bindings, cause.Spares binding) {last : σ}
    (ran : detector.check outlook.host .verify state = ((.error cause, other), last)) :
    last = state ∧ ¬ other.Rests hosted outlook (outlook.view state) ∧
      Matching hosted outlook Alike (outlook.view state)
        (detector.narrate outlook.host .detect state)
        (other.narrate outlook.host .detect state) := by
  obtain ⟨registry, discreet, fits⟩ := fit
  cases given : detector.scope with
  | none =>
    rw [check_of_none _ given] at ran
    cases ran
  | some scope =>
    rw [check_of_scope _ given] at ran
    rcases rest : detector.checkFrom outlook.host scope .verify {} 0 detector.bindings state with
      ⟨⟨result, bindings⟩, later⟩
    simp only [rest] at ran
    cases ran
    obtain ⟨same, ⟨after, member, restless⟩, behind⟩ := @narrateFrom_rehearsed _ _ scope _ _ _ detector
      { detector with bindings } _ _ _ discreet views reflexive registry registry rfl
      (given ▸ fits) _ spares _ _ rest 0
    refine ⟨same, fun rests => ?_, ?_⟩
    · exact restless (List.forall₂_same.mp (rests.bindings scope given) after member)
    rw [narrate_of_scope _ given, @narrate_of_scope _ _ scope _ { detector with bindings } given]
    exact ⟨behind.results, ⟨registry, registry, discreet, rfl, rfl, rfl, given ▸ behind.bindings⟩,
      behind.shapes, behind.states, behind.keeps⟩

/-- A verification of a detector that succeeds does what a detection would do, which has nothing to hand
over. -/
theorem check_rehearsed {host : Host σ} {detector other : Detector σ κ} {state last : σ} {total : Nat}
    (ran : detector.check host .verify state = ((.ok total, other), last)) :
    ∃ events, detector.narrate host .detect state = (((.ok total, other), events), last) ∧
      events.flatMap Event.shapes = [] := by
  cases given : detector.scope with
  | none =>
    rw [check_of_none _ given] at ran
    cases ran
    exact ⟨[], narrate_of_none _ given .detect state, rfl⟩
  | some scope =>
    rw [check_of_scope _ given] at ran
    rcases rest : detector.checkFrom host scope .verify {} 0 detector.bindings state with
      ⟨⟨result, bindings⟩, later⟩
    simp only [rest] at ran
    cases ran
    obtain ⟨events, told, silent⟩ := checkFrom_rehearsed rest 0
    refine ⟨events, ?_, silent⟩
    rw [narrate_of_scope _ given, told]

end Twins
end Detector
end ChangeWatch
