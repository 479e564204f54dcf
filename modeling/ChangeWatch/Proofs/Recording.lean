import ChangeWatch.Proofs.Entries
import ChangeWatch.Proofs.Standstill
import ChangeWatch.Proofs.Strategies

/-!
Recorders. A recorder stands at the dispatcher of a detector and writes down every call, beside the state
of the application, which does not see it. A detector with a recorder does what it does without one, and
what is written down of a check are the calls that the told check tells of.
-/
namespace ChangeWatch

/-- A computation on an application that has something beside it. -/
def Stateful.beside (action : StateM σ α) : StateM (σ × ρ) α := fun (state, aside) =>
  ((action state).1, ((action state).2, aside))

open Stateful (beside)

def Host.beside (host : Host σ) : Host (σ × ρ) where
  call f args := Stateful.beside (host.call f args)
  readField ref name := Stateful.beside (host.readField ref name)
  readKeyed ref key := Stateful.beside (host.readKeyed ref key)
  invoke ref name args := Stateful.beside (host.invoke ref name args)
  fields world := host.fields world.1
  nesting world := host.nesting world.1

def PipeMaker.beside : PipeMaker σ κ → PipeMaker (σ × ρ) κ
  | builtIn kind => builtIn kind
  | hosted supports create => hosted (fun value => Stateful.beside (supports value))
      (Stateful.beside create)

def Registry.beside (registry : Registry σ κ) : Registry (σ × ρ) κ where
  makers := Entries.mapValues (List.map PipeMaker.beside) registry.makers
  hosted :=
    { supports := fun handle value => Stateful.beside (registry.hosted.supports handle value)
      transform := fun handle value args =>
        Stateful.beside (registry.hosted.transform handle value args)
      destroy := fun handle => Stateful.beside (registry.hosted.destroy handle) }

/-- A dispatcher whose calls are written down, whether it takes the changes or not. -/
def Dispatcher.recorded (note : Notification → ι) (dispatcher : Dispatcher σ) :
    Dispatcher (σ × List ι) := fun group changes (state, log) =>
  let (answer, state) := dispatcher group changes state
  (answer, (state, log ++ [note { group, changes }]))

/-- A detector with a recorder at its dispatcher. -/
def Detector.recorded (note : Notification → ι) (detector : Detector σ κ) :
    Detector (σ × List ι) κ where
  name := detector.name
  registry := detector.registry.beside
  dispatcher := detector.dispatcher.recorded note
  bindings := detector.bindings
  localNames := detector.localNames
  scope := detector.scope
  mode := detector.mode

section Pipes

variable {registry : Registry σ κ}

theorem PipeMaker.firstFor_beside (value : Value) (makers : List (PipeMaker σ κ)) (world : σ × ρ) :
    firstFor value (makers.map PipeMaker.beside) world =
      (((firstFor value makers world.1).1.map PipeMaker.beside),
        ((firstFor value makers world.1).2, world.2)) := by
  induction makers generalizing world with
  | nil => rfl
  | cons maker makers ih =>
    have asked : maker.beside.supports value world = Stateful.beside (maker.supports value) world := by
      cases maker <;> rfl
    simp only [List.map_cons, firstFor, Bind.bind, StateT.bind, asked, Stateful.beside]
    rcases maker.supports value world.1 with ⟨supported, between⟩
    cases supported with
    | true => rfl
    | false => exact ih (between, world.2)

namespace Registry

theorem supports_beside (pipe : LivePipe κ) (value : Value) :
    registry.beside.supports (σ := σ × ρ) pipe value = Stateful.beside (registry.supports pipe value) := by
  cases pipe <;> rfl

theorem transform_beside (pipe : LivePipe κ) (value : Value) (args : List Value) :
    registry.beside.transform (σ := σ × ρ) pipe value args =
      Stateful.beside (registry.transform pipe value args) := by
  cases pipe <;> rfl

theorem destroy_beside (pipe : LivePipe κ) :
    registry.beside.destroy (σ := σ × ρ) pipe = Stateful.beside (registry.destroy pipe) := by
  cases pipe <;> rfl

theorem select_beside (name : String) (value : Value) (place : Place) :
    registry.beside.select (σ := σ × ρ) name value place =
      Stateful.beside (registry.select name value place) := by
  funext world
  simp only [select, beside, Entries.get?_mapValues]
  cases Entries.get? registry.makers name with
  | none => rfl
  | some makers =>
    simp only [Option.map_some, Bind.bind, StateT.bind, PipeMaker.firstFor_beside, Stateful.beside]
    rcases PipeMaker.firstFor value makers world.1 with ⟨chosen, between⟩
    rcases chosen with _ | (_ | _) <;> rfl

end Registry

namespace PipeSlot

theorem keep_beside (value : Value) (slot : PipeSlot κ) :
    slot.keep (σ := σ × ρ) registry.beside value = Stateful.beside (slot.keep registry value) := by
  funext world
  simp only [keep]
  cases slot.pipe with
  | none => rfl
  | some pipe =>
    simp only [Registry.supports_beside, Registry.destroy_beside, Bind.bind, StateT.bind,
      Stateful.beside]
    rcases registry.supports pipe value world.1 with ⟨supported, between⟩
    cases supported <;> rfl

theorem feed_beside (pipe : LivePipe κ) (value : Value) (args : List Value) (slot : PipeSlot κ) :
    slot.feed (σ := σ × ρ) registry.beside pipe value args =
      Stateful.beside (slot.feed registry pipe value args) := by
  funext world
  simp only [feed, Registry.transform_beside, Bind.bind, StateT.bind, Stateful.beside]
  rcases registry.transform pipe value args world.1 with ⟨⟨result, fed⟩, after⟩
  rcases result with _ | _ | _ <;> rfl

theorem apply_beside (place : Place) (name : String) (value : Value) (args : List Value)
    (slot : PipeSlot κ) :
    slot.apply (σ := σ × ρ) registry.beside place name value args =
      Stateful.beside (slot.apply registry place name value args) := by
  funext world
  simp only [apply, keep_beside, Registry.select_beside, feed_beside, Bind.bind, StateT.bind,
    Stateful.beside]
  rcases slot.keep registry value world.1 with ⟨kept, between⟩
  cases kept with
  | some pipe => rfl
  | none =>
    simp only [StateT.bind, Stateful.beside]
    rcases registry.select name value (.part slot.made place) between with ⟨chosen, after⟩
    cases chosen <;> rfl

theorem clear_beside (slot : PipeSlot κ) :
    slot.clear (σ := σ × ρ) registry.beside = Stateful.beside (slot.clear registry) := by
  funext world
  simp only [clear]
  cases slot.pipe with
  | none => rfl
  | some pipe =>
    simp only [Registry.destroy_beside]
    rfl

theorem clearAll_beside (slots : List (PipeSlot κ)) :
    clearAll (σ := σ × ρ) registry.beside slots = Stateful.beside (clearAll registry slots) := by
  induction slots with
  | nil => rfl
  | cons slot slots ih =>
    funext world
    simp only [clearAll, clear_beside, ih]
    rfl

end PipeSlot
end Pipes

/-- The first computation is the second one with something beside the application that stays. -/
def Eval.Aside (ρ : Type) (aside : Eval (σ × ρ) π α) (plain : Eval σ π α) : Prop :=
  ∀ state pipes (thing : ρ), aside ((state, thing), pipes) =
    ((plain (state, pipes)).1, (((plain (state, pipes)).2.1, thing), (plain (state, pipes)).2.2))

namespace Eval

theorem Aside.access (ρ : Type) (access : Access σ α) :
    Aside ρ (.access (beside access) : Eval (σ × ρ) π α) (.access access) := by
  intro state pipes thing
  simp only [Eval.access, beside]
  rcases access state with ⟨result, after⟩
  cases result <;> rfl

theorem Aside.bind {first : Eval (σ × ρ) π α} {plain : Eval σ π α}
    {next : α → Eval (σ × ρ) π β} {plainNext : α → Eval σ π β}
    (before : Aside ρ first plain) (after : ∀ value, Aside ρ (next value) (plainNext value)) :
    Aside ρ (first >>= next) (plain >>= plainNext) := by
  intro state pipes thing
  rw [Stateful.bind_apply, Stateful.bind_apply, before]
  rcases plain (state, pipes) with ⟨result, between, pipesBetween⟩
  cases result with
  | error cause => rfl
  | ok value => exact after value between pipesBetween thing

def Likeness.aside (ρ : Type) : Likeness (σ × ρ) π σ π where
  Holds _ := Aside ρ
  ofExcept _ _ _ _ := rfl
  bind := Aside.bind
  mono aside _ := aside

end Eval

open Eval (Aside)

section Evaluations

variable {ρ : Type} {host : Host σ} {registry : Registry σ κ}

theorem PipeSlot.host_aside (place : Place) (slot : Nat) (name : String) (value : Value)
    (args : List Value) :
    Aside ρ ((PipeSlot.host registry.beside place).apply slot name value args)
      ((PipeSlot.host registry place).apply slot name value args) := by
  intro state slots thing
  simp only [PipeSlot.host]
  cases slots[slot]? with
  | none => rfl
  | some found =>
    simp only [apply_beside, beside]
    rcases found.apply registry (.part slot place) name value args state with ⟨⟨result, slot'⟩, after⟩
    cases result <;> rfl

theorem Evaluator.evaluate_aside {setting : Setting (σ × ρ) π} {plain : Setting σ π}
    (alike : Setting.Alike (.aside ρ) setting plain) (place : Place) (evaluator : Evaluator)
    (number : Nat) :
    Aside ρ (evaluator.evaluate setting place number) (evaluator.evaluate plain place number) := by
  cases evaluator with
  | interpreter source =>
    simp only [evaluate, ← Program.evaluate_ofExpr]
    exact Program.evaluate_alike alike _ _
  | compiled source program => exact Program.evaluate_alike alike _ program

namespace Binding

theorem evaluate_beside (host : Host σ) (registry : Registry σ κ) (scope : Scope)
    (binding : Binding κ) :
    binding.evaluate (σ := σ × ρ) host.beside registry.beside scope =
      beside (binding.evaluate host registry scope) := by
  funext ⟨state, thing⟩
  let plain : Setting σ (List (PipeSlot κ)) :=
    { host, scope, pipes := PipeSlot.host registry (.part 1 binding.place) }
  let setting : Setting (σ × ρ) (List (PipeSlot κ)) :=
    { host := host.beside, scope, pipes := PipeSlot.host registry.beside (.part 1 binding.place) }
  have alike : Setting.Alike (.aside ρ) setting plain :=
    .of_scope
      { call := fun f args => Aside.access ρ (host.call f args)
        readField := fun ref name => Aside.access ρ (host.readField ref name)
        readKeyed := fun ref key => Aside.access ρ (host.readKeyed ref key)
        invoke := fun ref name args => Aside.access ρ (host.invoke ref name args) }
      rfl (PipeSlot.host_aside (.part 1 binding.place))
  have ran := Evaluator.evaluate_aside alike (.part 0 binding.place) binding.evaluator
    binding.evaluations state binding.slots thing
  simp only [evaluate, beside]
  rw [show binding.evaluator.evaluate _ _ _ ((state, thing), binding.slots) = _ from ran]
  rfl

theorem clear_beside (registry : Registry σ κ) (binding : Binding κ) :
    binding.clear (σ := σ × ρ) registry.beside = beside (binding.clear registry) := by
  funext world
  simp only [clear, PipeSlot.clearAll_beside]
  rfl

end Binding

theorem Detector.clearAll_beside (registry : Registry σ κ) (bindings : List (Binding κ)) :
    clearAll (σ := σ × ρ) registry.beside bindings = beside (clearAll registry bindings) := by
  induction bindings with
  | nil => rfl
  | cons binding bindings ih =>
    funext world
    simp only [clearAll, Binding.clear_beside, ih]
    rfl

end Evaluations

section Checks

variable {note : Notification → ι}

/-- What a recorder writes down of some events. -/
def Event.notes (note : Notification → ι) (events : List Event) : List ι :=
  (events.flatMap Event.calls).map note

@[simp] theorem Event.notes_append (events later : List Event) :
    notes note (events ++ later) = notes note events ++ notes note later := by
  simp only [notes, List.flatMap_append, List.map_append]

@[simp] theorem Event.notes_evaluated (position : Nat) (result : Except EvalError Outcome) :
    notes note [.evaluated position result] = [] := rfl

namespace Pending

variable (pending : Pending)

@[simp] theorem notes_drop : Event.notes note pending.drop = [] := by
  unfold drop
  cases pending.group <;> rfl

theorem flush_recorded (note : Notification → ι) (dispatcher : Dispatcher σ) (state : σ)
    (log : List ι) :
    pending.buffer.flush (dispatcher.recorded note) (state, log) =
      ((pending.buffer.flush dispatcher state).1,
        ((pending.buffer.flush dispatcher state).2, log ++ Event.notes note pending.hand)) := by
  cases grouped : pending.group with
  | none =>
    rw [Buffer.flush_of_none grouped, Buffer.flush_of_none grouped, hand, grouped, Event.notes,
      List.flatMap_nil, List.map_nil, List.append_nil]
  | some group =>
    rw [Buffer.flush_of_some grouped, Buffer.flush_of_some grouped, hand, grouped]
    rfl

theorem flushFor_recorded (note : Notification → ι) (dispatcher : Dispatcher σ) (state : σ)
    (log : List ι) (next : Label) :
    pending.buffer.flushFor (dispatcher.recorded note) next (state, log) =
      ((pending.buffer.flushFor dispatcher next state).1,
        ((pending.buffer.flushFor dispatcher next state).2,
          log ++ Event.notes note (pending.handFor next).1)) := by
  rw [Buffer.flushFor_eq, Buffer.flushFor_eq, handFor_eq,
    show pending.buffer.group = pending.group from rfl]
  split
  · rw [Event.notes, List.flatMap_nil, List.map_nil, List.append_nil]
  · rw [flush_recorded]

end Pending

namespace Detector

/-- What a recorder at the dispatcher writes down of a check are the calls that the told check tells of,
and nothing else is different. -/
theorem checkFrom_recorded (note : Notification → ι) (host : Host σ) (detector : Detector σ κ)
    (scope : Scope) (purpose : Purpose) (pending : Pending) (count position : Nat)
    (bindings : List (Binding κ)) (state : σ) (log : List ι) :
    (detector.recorded note).checkFrom host.beside scope purpose pending.buffer count bindings
        (state, log) =
      let told := narrateFrom host detector scope purpose pending count position bindings state
      (told.1.1, (told.2, log ++ Event.notes note told.1.2)) := by
  induction bindings generalizing pending count position state log with
  | nil =>
    have flushed := pending.flush_recorded note detector.dispatcher state log
    simp only [checkFrom, narrateFrom, bind, StateT.bind, Detector.recorded, flushed]
    rcases pending.buffer.flush detector.dispatcher state with ⟨result, after⟩
    cases result <;> rfl
  | cons binding bindings ih =>
    have handed := pending.flushFor_recorded note detector.dispatcher state log binding.group
    rcases narrateFrom_cons host detector scope purpose pending count position binding bindings
      state with
      ⟨error, after, flushed, told⟩ |
      ⟨kept, between, result, evaluated, later, flushed, ran, told⟩
    · rw [flushed, Pending.handFor_of_refused flushed] at handed
      rw [told]
      simp only [checkFrom, bind, StateT.bind]
      rw [show (detector.recorded note).dispatcher = detector.dispatcher.recorded note from rfl, handed]
      rfl
    · rw [flushed] at handed
      obtain rfl := Pending.buffer_of_flushFor flushed
      have evaluates : binding.evaluate host.beside (detector.recorded note).registry scope
          (between, log ++ Event.notes note (pending.handFor binding.group).1) =
            ((result, evaluated),
              (later, log ++ Event.notes note (pending.handFor binding.group).1)) := by
        rw [show (detector.recorded note).registry = detector.registry.beside from rfl,
          Binding.evaluate_beside, Stateful.beside, ran]
      rw [told]
      simp only [checkFrom, Binding.check, bind, StateT.bind]
      rw [show (detector.recorded note).dispatcher = detector.dispatcher.recorded note from rfl, handed]
      simp only [bind, StateT.bind, evaluates]
      rcases evaluated.judge purpose result with ⟨finding, judged⟩
      cases finding with
      | failed error =>
        simp only [Event.notes_append, Event.notes_evaluated, Pending.notes_drop, List.append_nil]
        rfl
      | same =>
        have rest := ih (pending.handFor binding.group).2 count (position + 1) later
          (log ++ Event.notes note (pending.handFor binding.group).1)
        simp only [Event.notes_append, Event.notes_evaluated, List.append_nil, ← List.append_assoc]
        exact congrArg (fun told => ((told.1.1, judged :: told.1.2), told.2)) rest
      | changed record =>
        have rest := ih ((pending.handFor binding.group).2.push judged.group position record)
          (count + 1) (position + 1) later
          (log ++ Event.notes note (pending.handFor binding.group).1)
        rw [Pending.buffer_push] at rest
        simp only [Event.notes_append, Event.notes_evaluated, List.append_nil, ← List.append_assoc]
        exact congrArg (fun told => ((told.1.1, judged :: told.1.2), told.2)) rest

theorem check_recorded (note : Notification → ι) (host : Host σ) (purpose : Purpose)
    (detector : Detector σ κ) (state : σ) (log : List ι) :
    (detector.recorded note).check host.beside purpose (state, log) =
      let told := detector.narrate host purpose state
      ((told.1.1.1, told.1.1.2.recorded note), (told.2, log ++ Event.notes note told.1.2)) := by
  cases given : detector.scope with
  | none =>
    rw [narrate_of_none host given,
      check_of_none host.beside (show (recorded note detector).scope = _ from given)]
    simp only [Event.notes, List.flatMap_nil, List.map_nil, List.append_nil]
  | some scope =>
    have checked := checkFrom_recorded note host detector scope purpose {} 0 0 detector.bindings
      state log
    rw [narrate_of_scope host given,
      check_of_scope host.beside (show (recorded note detector).scope = _ from given)]
    exact congrArg (fun ran => ((ran.1.1, { detector.recorded note with bindings := ran.1.2 }), ran.2))
      checked

theorem dehydrate_recorded (note : Notification → ι) (detector : Detector σ κ) :
    (detector.recorded note).dehydrate =
      beside (ρ := List ι) (fun state =>
        (((detector.dehydrate state).1.recorded note), (detector.dehydrate state).2)) := by
  funext state
  simp only [dehydrate, Detector.recorded, clearAll_beside]
  rfl

end Detector
end Checks
end ChangeWatch
