import ChangeWatch.Proofs.Flushes

/-!
Checks that tell what they do: which expressions they evaluate with which result, which changes they
hand over, and which changes they let go. The telling is erased without a trace, so whatever holds of
a told check holds of the check. And what is told takes place: the evaluations and the calls of the
dispatcher that are told of are all that a check does to the application.
-/
namespace ChangeWatch

/-- What happens in a check. Expressions are known by their positions in the watch list. -/
inductive Event where
  | evaluated (position : Nat) (result : Except EvalError Outcome)
  | handed (group : Label) (changes : List (Nat × ChangeRecord))
  /-- Collected changes that an expression of their group prevents from being handed over, because
  its evaluation fails. -/
  | dropped (changes : List (Nat × ChangeRecord))

/-- The changes that an event takes to the dispatcher. -/
def Event.heard : Event → List (Nat × ChangeRecord)
  | handed _ changes => changes
  | evaluated _ _ | dropped _ => []

/-- The changes that an event loses. -/
def Event.lost : Event → List (Nat × ChangeRecord)
  | dropped changes => changes
  | evaluated _ _ | handed _ _ => []

/-- The call of the dispatcher that an event is. -/
def Event.calls : Event → ChangeLog
  | handed group changes => [{ group, changes := changes.map Prod.snd }]
  | evaluated _ _ | dropped _ => []

/-- A buffer with the positions of its changes. -/
structure Pending where
  group : Option Label := none
  changes : List (Nat × ChangeRecord) := []

namespace Pending

def buffer (pending : Pending) : Buffer where
  group := pending.group
  records := pending.changes.map Prod.snd

def push (pending : Pending) (group : Label) (position : Nat) (record : ChangeRecord) :
    Pending where
  group := some (pending.group.getD group)
  changes := pending.changes ++ [(position, record)]

theorem buffer_push (pending : Pending) (group : Label) (position : Nat) (record : ChangeRecord) :
    (pending.push group position record).buffer = pending.buffer.push group record := by
  simp only [buffer, push, Buffer.push, List.map_append, List.map_cons, List.map_nil]

/-- Handing over, if there is anything to hand over. -/
def hand (pending : Pending) : List Event :=
  match pending.group with
  | none => []
  | some group => [.handed group pending.changes]

/-- Handing over before an expression of some group, and what is pending then. -/
def handFor (pending : Pending) (next : Label) : List Event × Pending :=
  match pending.group with
  | none => ([], pending)
  | some group => if group = next then ([], pending) else (pending.hand, {})

/-- Losing what is pending, if anything is. -/
def drop (pending : Pending) : List Event :=
  match pending.group with
  | none => []
  | some _ => [.dropped pending.changes]

/-- Changes are pending exactly when a group is. -/
def Sound (pending : Pending) : Prop := pending.group = none ↔ pending.changes = []

theorem empty_sound : Sound {} := by simp [Sound]

theorem push_sound (pending : Pending) (group : Label) (position : Nat) (record : ChangeRecord) :
    (pending.push group position record).Sound := by
  simp [Sound, push]

theorem handFor_sound {pending : Pending} (sound : pending.Sound) (next : Label) :
    (pending.handFor next).2.Sound := by
  cases grouped : pending.group with
  | none => simpa only [handFor, grouped] using sound
  | some group =>
    simp only [handFor, grouped]
    split
    · exact sound
    · exact empty_sound

theorem handFor_eq (pending : Pending) (next : Label) :
    pending.handFor next =
      if pending.group.all (· = next) then ([], pending) else (pending.hand, {}) := by
  unfold handFor
  cases grouped : pending.group with
  | none => rfl
  | some group => by_cases same : group = next <;> simp [same]

theorem buffer_of_flushFor {pending : Pending} {dispatcher : Dispatcher σ} {next : Label}
    {buffer : Buffer} {state after : σ}
    (ran : pending.buffer.flushFor dispatcher next state = (.ok buffer, after)) :
    buffer = (pending.handFor next).2.buffer := by
  rw [Buffer.flushFor_eq, show pending.buffer.group = pending.group from rfl] at ran
  rw [handFor_eq]
  split at ran <;> rename_i kept
  · cases ran
    rw [if_pos kept]
  · rw [if_neg kept]
    generalize pending.buffer.flush dispatcher state = flushed at ran
    obtain ⟨result, between⟩ := flushed
    cases result <;> cases ran
    rfl

theorem handFor_of_refused {pending : Pending} {dispatcher : Dispatcher σ} {next : Label}
    {error : CheckError} {state after : σ}
    (refused : pending.buffer.flushFor dispatcher next state = (.error error, after)) :
    (pending.handFor next).1 = pending.hand := by
  rw [Buffer.flushFor_eq, show pending.buffer.group = pending.group from rfl] at refused
  rw [handFor_eq]
  split at refused <;> rename_i kept
  · cases refused
  · rw [if_neg kept]

end Pending

namespace Detector

variable (host : Host σ)

/-- A check from some point on that tells what it does, with the changes pending so far. -/
def narrateFrom (detector : Detector σ κ) (scope : Scope) (purpose : Purpose) (pending : Pending)
    (count position : Nat) :
    List (Binding κ) → StateM σ ((Except CheckError Nat × List (Binding κ)) × List Event)
  | [] => do
    match ← pending.buffer.flush detector.dispatcher with
    | .ok () => return ((.ok count, []), pending.hand)
    | .error error => return ((.error error, []), pending.hand)
  | binding :: bindings => do
    match ← pending.buffer.flushFor detector.dispatcher binding.group with
    | .error error => return ((.error error, binding :: bindings), pending.hand)
    | .ok _ =>
      let (handed, pending) := pending.handFor binding.group
      let (result, evaluated) ← binding.evaluate host detector.registry scope
      let (finding, binding) := evaluated.judge purpose result
      let events := handed ++ [.evaluated position result]
      match finding with
      | .failed error => return ((.error error, binding :: bindings), events ++ pending.drop)
      | .same =>
        let ((result, bindings), later) ←
          narrateFrom detector scope purpose pending count (position + 1) bindings
        return ((result, binding :: bindings), events ++ later)
      | .changed record =>
        let ((result, bindings), later) ← narrateFrom detector scope purpose
          (pending.push binding.group position record) (count + 1) (position + 1) bindings
        return ((result, binding :: bindings), events ++ later)

/-- A check that tells what it does. -/
def narrate (purpose : Purpose) (detector : Detector σ κ) :
    StateM σ ((Except CheckError Nat × Detector σ κ) × List Event) := do
  match detector.scope with
  | none => return ((.ok 0, detector), [])
  | some scope =>
    let ((result, bindings), events) ←
      narrateFrom host detector scope purpose {} 0 0 detector.bindings
    return ((result, { detector with bindings }), events)

variable {scope : Scope}

/-- A told check of an expression and those behind it: the dispatcher refuses what is pending, or the
expression is evaluated and judged, and unless that fails the others are checked. -/
theorem narrateFrom_cons (detector : Detector σ κ) (scope : Scope) (purpose : Purpose)
    (pending : Pending) (count position : Nat) (binding : Binding κ) (bindings : List (Binding κ))
    (state : σ) :
    (∃ error after, pending.buffer.flushFor detector.dispatcher binding.group state =
        (.error error, after) ∧
      narrateFrom host detector scope purpose pending count position (binding :: bindings) state =
        (((.error error, binding :: bindings), pending.hand), after)) ∨
    ∃ kept between result evaluated later,
      pending.buffer.flushFor detector.dispatcher binding.group state = (.ok kept, between) ∧
      binding.evaluate host detector.registry scope between = ((result, evaluated), later) ∧
      let kept := (pending.handFor binding.group).2
      let events := (pending.handFor binding.group).1 ++ [.evaluated position result]
      narrateFrom host detector scope purpose pending count position (binding :: bindings) state =
        match evaluated.judge purpose result with
        | (.failed error, judged) =>
          (((.error error, judged :: bindings), events ++ kept.drop), later)
        | (.same, judged) =>
          let told := narrateFrom host detector scope purpose kept count (position + 1) bindings later
          (((told.1.1.1, judged :: told.1.1.2), events ++ told.1.2), told.2)
        | (.changed record, judged) =>
          let told := narrateFrom host detector scope purpose
            (kept.push judged.group position record) (count + 1) (position + 1) bindings later
          (((told.1.1.1, judged :: told.1.1.2), events ++ told.1.2), told.2) := by
  cases flushed : pending.buffer.flushFor detector.dispatcher binding.group state with
  | mk flush between =>
    cases flush with
    | error error =>
      left
      refine ⟨error, between, rfl, ?_⟩
      simp only [narrateFrom, bind, StateT.bind, flushed]
      rfl
    | ok kept =>
      right
      cases ran : binding.evaluate host detector.registry scope between with
      | mk outcome later =>
        obtain ⟨result, evaluated⟩ := outcome
        refine ⟨kept, between, result, evaluated, later, rfl, ran, ?_⟩
        simp only [narrateFrom, bind, StateT.bind, flushed, ran]
        rcases evaluated.judge purpose result with ⟨finding, judged⟩
        cases finding <;> rfl

/-- Telling changes nothing else. -/
theorem narrateFrom_erases (detector : Detector σ κ) (scope : Scope) (purpose : Purpose)
    (pending : Pending) (count position : Nat) (bindings : List (Binding κ)) (state : σ) :
    detector.checkFrom host scope purpose pending.buffer count bindings state =
      let told := narrateFrom host detector scope purpose pending count position bindings state
      (told.1.1, told.2) := by
  induction bindings generalizing pending count position state with
  | nil =>
    simp only [checkFrom, narrateFrom, bind, StateT.bind]
    rcases pending.buffer.flush detector.dispatcher state with ⟨result, after⟩
    cases result <;> rfl
  | cons binding bindings ih =>
    rcases narrateFrom_cons host detector scope purpose pending count position binding bindings
      state with
      ⟨error, after, flushed, told⟩ |
      ⟨kept, between, result, evaluated, later, flushed, ran, told⟩
    · rw [told]
      simp only [checkFrom, bind, StateT.bind, flushed]
      rfl
    · rw [told]
      rw [Pending.buffer_of_flushFor flushed] at flushed
      simp only [checkFrom, Binding.check, bind, StateT.bind, flushed, ran]
      rcases evaluated.judge purpose result with ⟨finding, judged⟩
      cases finding with
      | failed error => rfl
      | same =>
        have rest := ih (pending.handFor binding.group).2 count (position + 1) later
        exact congrArg (fun told => ((told.1.1, judged :: told.1.2), told.2)) rest
      | changed record =>
        have rest := ih ((pending.handFor binding.group).2.push judged.group position record)
          (count + 1) (position + 1) later
        rw [Pending.buffer_push] at rest
        exact congrArg (fun told => ((told.1.1, judged :: told.1.2), told.2)) rest

theorem narrate_of_none {detector : Detector σ κ} (bare : detector.scope = none)
    (purpose : Purpose) (state : σ) :
    detector.narrate host purpose state = (((.ok 0, detector), []), state) := by
  simp only [narrate, bare]
  rfl

theorem narrate_of_scope {detector : Detector σ κ} (hydrated : detector.scope = some scope)
    (purpose : Purpose) (state : σ) :
    detector.narrate host purpose state =
      let told := detector.narrateFrom host scope purpose {} 0 0 detector.bindings state
      (((told.1.1.1, { detector with bindings := told.1.1.2 }), told.1.2), told.2) := by
  simp only [narrate, hydrated]
  rfl

theorem narrate_erases (purpose : Purpose) (detector : Detector σ κ) (state : σ) :
    detector.check host purpose state =
      ((detector.narrate host purpose state).1.1, (detector.narrate host purpose state).2) := by
  cases given : detector.scope with
  | none => simp only [check, narrate, given]; rfl
  | some scope =>
    have erased := narrateFrom_erases host detector scope purpose {} 0 0
      detector.bindings state
    simp only [check, narrate, given, bind, StateT.bind]
    rw [show ({} : Buffer) = Pending.buffer {} from rfl, erased]
    rfl

/-- What is told takes place: expressions of a detector are evaluated and its dispatcher is called as the
events say, one after the other, which takes the application from one state to another. -/
inductive Enacts (detector : Detector σ κ) (scope : Scope) : List Event → σ → σ → Prop where
  | nil (state : σ) : Enacts detector scope [] state state
  | evaluated {position : Nat} {binding evaluated : Binding κ} {result : Except EvalError Outcome}
      {events : List Event} {state between later : σ}
      (found : detector.bindings[position]? = some binding)
      (ran : binding.evaluate host detector.registry scope state = ((result, evaluated), between))
      (rest : Enacts detector scope events between later) :
      Enacts detector scope (.evaluated position result :: events) state later
  | handed {group : Label} {changes : List (Nat × ChangeRecord)} {answer : Except String Unit}
      {events : List Event} {state between later : σ}
      (called : detector.dispatcher group (changes.map Prod.snd) state = (answer, between))
      (rest : Enacts detector scope events between later) :
      Enacts detector scope (.handed group changes :: events) state later
  | dropped {changes : List (Nat × ChangeRecord)} {events : List Event} {state later : σ}
      (rest : Enacts detector scope events state later) :
      Enacts detector scope (.dropped changes :: events) state later

section Enacts

variable {host} {detector : Detector σ κ} {events others : List Event} {state between later : σ}

theorem Enacts.append (first : detector.Enacts host scope events state between)
    (second : detector.Enacts host scope others between later) :
    detector.Enacts host scope (events ++ others) state later := by
  induction first with
  | nil => exact second
  | evaluated found ran _ ih => exact .evaluated found ran (ih second)
  | handed called _ ih => exact .handed called (ih second)
  | dropped _ ih => exact .dropped (ih second)

theorem enacts_hand (host : Host σ) (detector : Detector σ κ) (scope : Scope) (pending : Pending)
    (state : σ) :
    detector.Enacts host scope pending.hand state
      (pending.buffer.flush detector.dispatcher state).2 := by
  cases grouped : pending.group with
  | none =>
    rw [Buffer.flush_of_none grouped, Pending.hand, grouped]
    exact .nil state
  | some group =>
    rw [Buffer.flush_of_some grouped, Pending.hand, grouped]
    exact .handed rfl (.nil _)

theorem enacts_handFor (host : Host σ) (detector : Detector σ κ) (scope : Scope) (pending : Pending)
    (next : Label) (state : σ) :
    detector.Enacts host scope (pending.handFor next).1 state
      (pending.buffer.flushFor detector.dispatcher next state).2 := by
  rw [Buffer.flushFor_eq, Pending.handFor_eq, show pending.buffer.group = pending.group from rfl]
  split
  · exact .nil state
  · exact enacts_hand host detector scope pending state

theorem enacts_drop (pending : Pending) (state : σ) :
    detector.Enacts host scope pending.drop state state := by
  unfold Pending.drop
  cases pending.group with
  | none => exact .nil state
  | some group => exact .dropped (.nil state)

/-- A check does to the application what it tells, in this order and nothing else. -/
theorem narrateFrom_enacts (host : Host σ) (detector : Detector σ κ) (scope : Scope)
    (purpose : Purpose) (pending : Pending) (count : Nat) {position : Nat}
    {bindings : List (Binding κ)} (listed : detector.bindings.drop position = bindings) (state : σ) :
    let told := narrateFrom host detector scope purpose pending count position bindings state
    detector.Enacts host scope told.1.2 state told.2 := by
  induction bindings generalizing pending count position state with
  | nil =>
    have handed := enacts_hand host detector scope pending state
    simp only [narrateFrom, bind, StateT.bind]
    generalize pending.buffer.flush detector.dispatcher state = flushed at handed ⊢
    obtain ⟨result, after⟩ := flushed
    cases result <;> exact handed
  | cons binding bindings ih =>
    have handed := enacts_handFor host detector scope pending binding.group state
    rcases narrateFrom_cons host detector scope purpose pending count position binding bindings
      state with
      ⟨error, after, flushed, told⟩ |
      ⟨kept, between, result, evaluated, later, flushed, ran, told⟩
    · rw [flushed, Pending.handFor_of_refused flushed] at handed
      rw [told]
      exact handed
    · rw [flushed] at handed
      have found : detector.bindings[position]? = some binding := by
        rw [← Nat.add_zero position, ← List.getElem?_drop, listed, List.getElem?_cons_zero]
      have behind : detector.bindings.drop (position + 1) = bindings := by
        rw [← List.tail_drop, listed, List.tail_cons]
      have before := handed.append (.evaluated found ran (.nil later))
      rw [told]
      rcases evaluated.judge purpose result with ⟨finding, judged⟩
      cases finding with
      | failed error => exact before.append (enacts_drop _ later)
      | same => exact before.append (ih _ count behind later)
      | changed record => exact before.append (ih _ (count + 1) behind later)

end Enacts

end Detector
end ChangeWatch
