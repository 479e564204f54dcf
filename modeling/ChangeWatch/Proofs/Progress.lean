import ChangeWatch.Proofs.Narration

/-!
How far a check gets. It passes the expressions at the front of the watch list, and the first failure
leaves the others as they are. Changes of passed expressions are handed over or dropped, in order and
each one once.
-/
namespace ChangeWatch

/-- An expression that a check has passed: its position, what the check found and what the evaluation
made of its value and its pipes. -/
structure Checked (κ : Type) where
  position : Nat
  binding : Binding κ
  outcome : Outcome
  slots : List (PipeSlot κ)

namespace Checked

/-- What an evaluation has to report: a value that differs from the remembered one. -/
def change? (checked : Checked κ) : Option ChangeRecord :=
  match checked.outcome with
  | .noChange => none
  | .value current =>
    if checked.binding.previous.differsFrom current then
      some { binding := checked.binding.id, previous := checked.binding.previous, current }
    else none

def changeAt? (checked : Checked κ) : Option (Nat × ChangeRecord) :=
  checked.change?.map fun record => (checked.position, record)

/-- The expression as the check leaves it. Only a change is remembered. -/
def after (checked : Checked κ) : Binding κ :=
  { checked.binding with
    slots := checked.slots
    evaluations := checked.binding.evaluations + 1
    previous := (checked.change?.map fun record => .set record.current).getD
      checked.binding.previous }

end Checked

namespace Event

/-- The changes that reach the dispatcher. -/
def heardIn (events : List Event) : List (Nat × ChangeRecord) := events.flatMap heard

/-- The changes that are dropped. -/
def lostIn (events : List Event) : List (Nat × ChangeRecord) := events.flatMap lost

@[simp] theorem heardIn_nil : heardIn [] = [] := rfl

@[simp] theorem lostIn_nil : lostIn [] = [] := rfl

@[simp] theorem heardIn_append (events later : List Event) :
    heardIn (events ++ later) = heardIn events ++ heardIn later := List.flatMap_append

@[simp] theorem lostIn_append (events later : List Event) :
    lostIn (events ++ later) = lostIn events ++ lostIn later := List.flatMap_append

@[simp] theorem heardIn_evaluated (position : Nat) (result : Except EvalError Outcome)
    (events : List Event) : heardIn (.evaluated position result :: events) = heardIn events := rfl

@[simp] theorem lostIn_evaluated (position : Nat) (result : Except EvalError Outcome)
    (events : List Event) : lostIn (.evaluated position result :: events) = lostIn events := rfl

end Event

namespace Pending

variable {pending : Pending}

@[simp] theorem heardIn_hand (sound : pending.Sound) :
    Event.heardIn pending.hand = pending.changes := by
  cases grouped : pending.group with
  | none => simp [hand, grouped, sound.mp grouped]
  | some group => simp [hand, grouped, Event.heardIn, Event.heard]

@[simp] theorem lostIn_hand (pending : Pending) : Event.lostIn pending.hand = [] := by
  cases grouped : pending.group <;> simp [hand, grouped, Event.lostIn, Event.lost]

@[simp] theorem heardIn_drop (pending : Pending) : Event.heardIn pending.drop = [] := by
  cases grouped : pending.group <;> simp [drop, grouped, Event.heardIn, Event.heard]

@[simp] theorem lostIn_drop (sound : pending.Sound) :
    Event.lostIn pending.drop = pending.changes := by
  cases grouped : pending.group with
  | none => simp [drop, grouped, sound.mp grouped]
  | some group => simp [drop, grouped, Event.lostIn, Event.lost]

/-- Handing over before an expression of another group loses nothing. -/
theorem heardIn_handFor (sound : pending.Sound) (next : Label) :
    Event.heardIn (pending.handFor next).1 ++ (pending.handFor next).2.changes =
      pending.changes := by
  cases grouped : pending.group with
  | none => simp [handFor, grouped]
  | some group =>
    by_cases same : group = next
    · simp [handFor, grouped, same]
    · simp [handFor, grouped, same, sound]

@[simp] theorem lostIn_handFor (pending : Pending) (next : Label) :
    Event.lostIn (pending.handFor next).1 = [] := by
  cases grouped : pending.group with
  | none => simp [handFor, grouped]
  | some group =>
    by_cases same : group = next
    · simp [handFor, grouped, same]
    · simp [handFor, grouped, same]

/-- What is pending behind an expression that a check passes. -/
def behind (pending : Pending) (checked : Checked κ) : Pending :=
  let kept := (pending.handFor checked.binding.group).2
  match checked.change? with
  | none => kept
  | some record => kept.push checked.binding.group checked.position record

theorem behind_sound (sound : pending.Sound) (checked : Checked κ) :
    (pending.behind checked).Sound := by
  cases changed : checked.change? with
  | none => simpa only [behind, changed] using handFor_sound sound checked.binding.group
  | some record => simpa only [behind, changed] using push_sound _ _ _ record

theorem heardIn_behind (sound : pending.Sound) (checked : Checked κ) :
    Event.heardIn (pending.handFor checked.binding.group).1 ++ (pending.behind checked).changes =
      pending.changes ++ checked.changeAt?.toList := by
  have before := heardIn_handFor sound checked.binding.group
  cases changed : checked.change? with
  | none => simp [behind, changed, before, Checked.changeAt?]
  | some record =>
    simp only [behind, changed, push, Checked.changeAt?, Option.map_some, Option.toList_some,
      ← List.append_assoc, before]

end Pending

namespace Binding

variable {host : Host σ} {registry : Registry σ κ} {scope : Scope} {binding evaluated : Binding κ}

/-- An evaluation works on the pipes of an expression and counts itself, nothing else. -/
theorem evaluated_eq {result : Except EvalError Outcome} {state later : σ}
    (ran : binding.evaluate host registry scope state = ((result, evaluated), later)) :
    evaluated = { binding with
      slots := evaluated.slots, evaluations := binding.evaluations + 1 } := by
  cases ran
  rfl

/-- A judgement without failure is either a detection's or finds no change. -/
theorem judge_of_outcome (purpose : Purpose) (checked : Checked κ)
    (evaluated_eq : evaluated = { checked.binding with
      slots := checked.slots, evaluations := checked.binding.evaluations + 1 }) :
    evaluated.judge purpose (.ok checked.outcome) =
      match checked.change?, purpose with
      | none, _ => (.same, checked.after)
      | some record, .detect => (.changed record, checked.after)
      | some record, .verify =>
        (.failed (.changedAfterChecked evaluated.evaluator.source.describe evaluated.id
          record.previous record.current), evaluated) := by
  subst evaluated_eq
  cases came : checked.outcome with
  | noChange => simp [judge, Checked.change?, Checked.after, came]
  | value current =>
    by_cases differs : checked.binding.previous.differsFrom current
    · cases purpose <;> simp [judge, Checked.change?, Checked.after, came, differs]
    · simp [judge, Checked.change?, Checked.after, came, differs]

theorem judge_of_error (purpose : Purpose) (cause : EvalError) (binding : Binding κ) :
    binding.judge purpose (.error cause) =
      (.failed (.evaluation binding.evaluator.source.describe binding.id cause), binding) := rfl

end Binding

def Checked.evaluation (checked : Checked κ) : Event :=
  .evaluated checked.position (.ok checked.outcome)

/-- What a check tells of expressions that it passes, with the changes pending before them. -/
def Checked.tell (pending : Pending) : List (Checked κ) → List Event
  | [] => pending.hand
  | checked :: others =>
    (pending.handFor checked.binding.group).1 ++
      checked.evaluation :: tell (pending.behind checked) others

/-- Nothing is dropped on the way. -/
theorem Checked.heardIn_tell {pending : Pending} (sound : pending.Sound) (checked : List (Checked κ)) :
    Event.heardIn (Checked.tell pending checked) =
      pending.changes ++ checked.filterMap Checked.changeAt? := by
  induction checked generalizing pending with
  | nil => simp [Checked.tell, sound]
  | cons checked others ih =>
    have before := Pending.heardIn_behind sound checked
    have split : (checked :: others).filterMap Checked.changeAt? =
        checked.changeAt?.toList ++ others.filterMap Checked.changeAt? := by
      cases changed : checked.changeAt? <;> simp [changed]
    rw [split, ← List.append_assoc, ← before, List.append_assoc,
      ← ih (Pending.behind_sound sound checked)]
    simp [Checked.tell, Checked.evaluation]

/-- Which expressions a check has passed, which it has not, and what it has made of those. -/
structure Progress (κ : Type) where
  checked : List (Checked κ)
  unchecked : List (Binding κ) := []
  left : List (Binding κ) := []

/-- The changes found on the way. -/
def Progress.changes (progress : Progress κ) : List (Nat × ChangeRecord) :=
  progress.checked.filterMap Checked.changeAt?

/-- The progress of a told check that starts at a position with some changes pending. -/
structure Progress.Explains (progress : Progress κ) (pending : Pending) (count position : Nat)
    (bindings : List (Binding κ))
    (told : (Except CheckError Nat × List (Binding κ)) × List Event) : Prop where
  found : progress.checked.map Checked.binding ++ progress.unchecked = bindings
  positions : progress.checked.map Checked.position =
    List.range' position progress.checked.length
  leaves : told.1.2 = progress.checked.map Checked.after ++ progress.left
  remembers : progress.left.map Binding.previous = progress.unchecked.map Binding.previous
  settles : Event.heardIn told.2 ++ Event.lostIn told.2 = pending.changes ++ progress.changes
  passes : ∀ total, told.1.1 = .ok total → progress.unchecked = [] ∧ progress.left = [] ∧
    told.2 = Checked.tell pending progress.checked ∧ total = count + progress.changes.length

namespace Progress.Explains

variable {progress : Progress κ} {pending : Pending} {count position : Nat}
  {bindings after : List (Binding κ)} {events : List Event}

/-- A check that fails before it passes anything. -/
theorem of_error {error : CheckError}
    (remembers : after.map Binding.previous = bindings.map Binding.previous)
    (settles : Event.heardIn events ++ Event.lostIn events = pending.changes) :
    Explains { checked := [], unchecked := bindings, left := after } pending count position
      bindings ((.error error, after), events) where
  found := rfl
  positions := rfl
  leaves := rfl
  remembers := remembers
  settles := by simpa only [changes, List.filterMap_nil, List.append_nil] using settles
  passes _ passed := nomatch passed

/-- A check that passes one more expression in front. -/
theorem cons {checked : Checked κ} {result : Except CheckError Nat} (sound : pending.Sound)
    (explains : progress.Explains (pending.behind checked)
      (count + checked.changeAt?.toList.length) (checked.position + 1) bindings
      ((result, after), events)) :
    Explains { progress with checked := checked :: progress.checked } pending count
      checked.position (checked.binding :: bindings)
      ((result, checked.after :: after), (pending.handFor checked.binding.group).1 ++
        [.evaluated checked.position (.ok checked.outcome)] ++ events) := by
  have first : changes { progress with checked := checked :: progress.checked } =
      checked.changeAt?.toList ++ progress.changes := by
    cases changed : checked.changeAt? <;> simp [changes, changed]
  refine ⟨?_, ?_, ?_, explains.remembers, ?_, ?_⟩
  · simp [← explains.found]
  · simp [explains.positions, List.range'_succ]
  · exact congrArg (checked.after :: ·) explains.leaves
  · have others := explains.settles
    have before := Pending.heardIn_behind sound checked
    rw [first, ← List.append_assoc, ← before]
    simpa using others
  · intro total passed
    obtain ⟨all, left, told, counted⟩ := explains.passes total passed
    refine ⟨all, left, ?_, ?_⟩
    · simpa [Checked.tell, Checked.evaluation] using told
    · rw [counted, first, List.length_append, Nat.add_assoc]

end Progress.Explains

namespace Detector

/-- Every check, whether it fails or not, makes progress of the described kind. -/
theorem narrateFrom_explained (host : Host σ) (detector : Detector σ κ) (scope : Scope)
    (purpose : Purpose) {pending : Pending} (sound : pending.Sound) (count position : Nat)
    (bindings : List (Binding κ)) (state : σ) :
    ∃ progress : Progress κ, progress.Explains pending count position bindings
      (detector.narrateFrom host scope purpose pending count position bindings state).1 := by
  induction bindings generalizing pending count position state with
  | nil =>
    refine ⟨{ checked := [] }, ?_⟩
    simp only [narrateFrom, bind, StateT.bind]
    rcases pending.buffer.flush detector.dispatcher state with ⟨flush, after⟩
    have settles : Event.heardIn pending.hand ++ Event.lostIn pending.hand = pending.changes := by
      simp [sound]
    cases flush with
    | error error => exact .of_error rfl settles
    | ok done =>
      refine ⟨rfl, rfl, rfl, rfl, ?_, ?_⟩
      · exact settles.trans (List.append_nil pending.changes).symm
      · intro total passed
        cases passed
        exact ⟨rfl, rfl, rfl, rfl⟩
  | cons binding bindings ih =>
    rcases narrateFrom_cons host detector scope purpose pending count position binding bindings
      state with
      ⟨error, after, flushed, told⟩ |
      ⟨kept, between, result, evaluated, later, flushed, ran, told⟩
    · rw [told]
      exact ⟨_, .of_error rfl (by simp [sound])⟩
    · have unseen := Binding.evaluated_eq ran
      have kept_sound := Pending.handFor_sound sound binding.group
      have failed (error : CheckError) : ∃ progress : Progress κ,
          progress.Explains pending count position (binding :: bindings)
            ((.error error, evaluated :: bindings), (pending.handFor binding.group).1 ++
              [.evaluated position result] ++ (pending.handFor binding.group).2.drop) := by
        refine ⟨_, .of_error (by rw [unseen]; rfl) ?_⟩
        simpa [kept_sound] using Pending.heardIn_handFor sound binding.group
      cases result with
      | error cause =>
        rw [told, Binding.judge_of_error]
        exact failed _
      | ok outcome =>
        let checked : Checked κ := { position, binding, outcome, slots := evaluated.slots }
        have judged := Binding.judge_of_outcome purpose checked unseen
        rw [told, judged]
        cases changed : checked.change? with
        | none =>
          obtain ⟨progress, explains⟩ := ih kept_sound count (position + 1) later
          refine ⟨_, @Progress.Explains.cons _ progress _ _ _ _ _ checked _ sound ?_⟩
          simp only [Pending.behind, Checked.changeAt?, changed]
          exact explains
        | some record =>
          cases purpose with
          | verify => exact failed _
          | detect =>
            obtain ⟨progress, explains⟩ := ih (Pending.push_sound
              (pending.handFor binding.group).2 binding.group position record)
              (count + 1) (position + 1) later
            refine ⟨_, @Progress.Explains.cons _ progress _ _ _ _ _ checked _ sound ?_⟩
            simp only [Pending.behind, Checked.changeAt?, changed]
            exact explains

end Detector
end ChangeWatch
