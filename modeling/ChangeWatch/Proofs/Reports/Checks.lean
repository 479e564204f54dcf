import ChangeWatch.Proofs.Delivery.Check
import ChangeWatch.Proofs.Reports.Evaluation
import ChangeWatch.Proofs.Standstill
import ChangeWatch.Proofs.Strategies
import ChangeWatch.Proofs.Timeless.Scenarios

/-!
What the expressions of a scenario find and report: values without objects, from pipes that have seen no
objects either. Neither evaluations nor notifications touch the record.
-/
namespace ChangeWatch

open Stateful (Ensures error_finds)

section Slots

variable [Epoch]

/-- A pipe that remembers no objects. -/
def LivePipe.Tidy : LivePipe Empty → Prop
  | .builtIn pipe _ _ => pipe.Sound fun _ => True
  | .hosted handle => nomatch handle

namespace PipeSlot

structure Tidy (slot : PipeSlot Empty) : Prop where
  pipe : ∀ live, slot.pipe = some live → live.Tidy
  last : slot.last.Tidy

theorem empty_tidy : Tidy {} := ⟨nofun, trivial⟩

variable {slot : PipeSlot Empty} {live : LivePipe Empty} {value : Value}
  (hosted : HostedPipes σ Empty) (state : σ)

theorem Tidy.of_pipe (tidy : live.Tidy) {last : Value} (kept : last.Tidy) (made : Nat) :
    Tidy { pipe := some live, last, made } where
  pipe other same := by
    cases same
    exact tidy
  last := kept

theorem Tidy.without {last : Value} (kept : last.Tidy) (made : Nat) :
    Tidy { pipe := none, last, made } where
  pipe := nofun
  last := kept

/-- An application of a slot. -/
structure Applies (ran : Except PipeError Applied × PipeSlot Empty) : Prop where
  slot : ran.2.Tidy
  value : ∀ applied, ran.1 = .ok applied → applied.value.Tidy

omit [Epoch] in
theorem feed_keeps (slot : PipeSlot Empty) (live : LivePipe Empty) (value : Value) (args : List Value) :
    (slot.feed (.default hosted) live value args state).2 = state := by
  cases live with
  | hosted handle => exact nomatch handle
  | builtIn pipe place transforms =>
    simp only [feed, Registry.transform, pure_bind]
    rcases pipe.transform _ value with ⟨cause | made | _, _⟩ <;> rfl

/-- Built-in pipes leave the application alone. -/
theorem apply_keeps (slot : PipeSlot Empty) (place : Place) (name : String) (value : Value)
    (args : List Value) : (slot.apply (.default hosted) place name value args state).2 = state := by
  simp only [apply, Bind.bind, StateT.bind, keep_eq]
  cases slot.pipe.filter fun live => live.image.kind.supports value with
  | some live => exact feed_keeps hosted state slot live value args
  | none =>
    simp only [StateT.bind, select_eq]
    cases Still.choose name value with
    | error cause => rfl
    | ok kind => exact feed_keeps hosted state _ _ value args

theorem feed_tidy (tidy : live.Tidy) (kept : slot.last.Tidy) (seen : value.Tidy) (args : List Value) :
    Applies (slot.feed (.default hosted) live value args state).1 := by
  cases live with
  | hosted handle => exact nomatch handle
  | builtIn pipe place transforms =>
    have covered : Place.Covered (fun _ => True) (.part transforms place) := fun _ => trivial
    have parts := BuiltInPipe.transform_sound covered tidy seen
    simp only [feed, Registry.transform, pure_bind]
    generalize pipe.transform (.part transforms place) value = transformed at parts ⊢
    obtain ⟨result, fed⟩ := transformed
    have stays : LivePipe.Tidy (.builtIn fed place (transforms + 1)) := parts.1
    rcases result with cause | made | _
    · exact ⟨.of_pipe stays kept slot.made, error_finds cause⟩
    · refine ⟨.of_pipe stays (parts.2 made rfl) slot.made, fun applied same => ?_⟩
      cases same
      exact parts.2 made rfl
    · refine ⟨.of_pipe stays kept slot.made, fun applied same => ?_⟩
      cases same
      exact kept

theorem apply_tidy (tidy : slot.Tidy) (seen : value.Tidy) (place : Place) (name : String)
    (args : List Value) : Applies (slot.apply (.default hosted) place name value args state).1 := by
  simp only [apply, Bind.bind, StateT.bind, keep_eq]
  cases kept : slot.pipe.filter fun live => live.image.kind.supports value with
  | some live =>
    have held := (Option.filter_eq_some_iff.mp kept).1
    exact feed_tidy hosted state (tidy.pipe live held) tidy.last seen args
  | none =>
    simp only [StateT.bind, select_eq]
    cases Still.choose name value with
    | error cause => exact ⟨.without tidy.last slot.made, error_finds cause⟩
    | ok kind =>
      have created : LivePipe.Tidy (.builtIn (.create kind) (.part slot.made place) 0) :=
        BuiltInPipe.create_sound _ kind
      exact @feed_tidy _ _ { slot with made := slot.made + 1 } _ _ hosted state created tidy.last seen
        args

theorem host_keeps (place : Place) (index : Nat) (name : String) (value : Value) (args : List Value)
    (slots : List (PipeSlot Empty)) :
    ((host (.default hosted) place).apply index name value args (state, slots)).2.1 = state := by
  simp only [host]
  cases slots[index]? with
  | none => rfl
  | some slot =>
    have stays := apply_keeps hosted state slot (.part index place) name value args
    dsimp only
    generalize slot.apply (.default hosted) (.part index place) name value args state = ran at stays ⊢
    obtain ⟨⟨result, after⟩, later⟩ := ran
    cases result <;> exact stays

/-- An application in some state, and slots that have seen no objects. -/
def Steady (state : σ) (current : σ × List (PipeSlot Empty)) : Prop :=
  current.1 = state ∧ ∀ slot ∈ current.2, slot.Tidy

theorem host_tidy (seen : value.Tidy) (place : Place) (index : Nat) (name : String)
    (args : List Value) :
    Ensures (Steady state) (fun applied => applied.value.Tidy)
      ((host (.default hosted) place).apply index name value args) := by
  rintro ⟨current, slots⟩ ⟨rfl, tidy⟩
  simp only [host]
  cases found : slots[index]? with
  | none => exact ⟨⟨rfl, tidy⟩, error_finds _⟩
  | some slot =>
    have held := tidy slot (List.mem_of_getElem? found)
    have applies := apply_tidy hosted current held seen (.part index place) name args
    have stays := apply_keeps hosted current slot (.part index place) name value args
    dsimp only
    generalize slot.apply (.default hosted) (.part index place) name value args current = ran
      at applies stays ⊢
    obtain ⟨⟨result, after⟩, later⟩ := ran
    obtain rfl : later = current := stays
    have others : ∀ other ∈ slots.set index after, other.Tidy := by
      intro other member
      rcases List.mem_or_eq_of_mem_set member with old | rfl
      · exact tidy other old
      · exact applies.slot
    cases result with
    | error cause => exact ⟨⟨rfl, others⟩, error_finds _⟩
    | ok applied =>
      refine ⟨⟨rfl, others⟩, fun other same => ?_⟩
      cases same
      exact applies.value applied rfl

end PipeSlot
end Slots

variable [Epoch.Uncalled]

namespace Scenario

/-- States with the application unchanged. -/
private def Unchanged (first second : Watched × List (PipeSlot Empty)) : Prop := second.1 = first.1

private instance : Std.Refl Unchanged where
  refl _ := rfl

private instance : Trans Unchanged Unchanged Unchanged where
  trans first second := Eq.trans second first

/-- No expression changes the application of a scenario. -/
theorem evaluate_keeps (scope : Scope) (binding : Binding Empty) (watched : Watched) :
    (binding.evaluate host registry scope watched).2 = watched := by
  have known := host_records fun _ => True
  let setting : Setting Watched (List (PipeSlot Empty)) :=
    { host, scope, pipes := PipeSlot.host registry (.part 1 binding.place) }
  have along : setting.Along Unchanged :=
    { host := fun _ =>
        { call := fun _ _ => .of_same fun _ => rfl
          readField := fun ref name => .of_same fun watched =>
            congrArg Prod.snd (known.readField ref trivial name watched)
          readKeyed := fun ref key => .of_same fun watched => by
            rw [known.readKeyed ref trivial, known.readField ref trivial]
          invoke := fun ref name args => .of_same fun watched => by
            rw [known.invoke ref trivial]
            simp only [Host.ofFields, Stateful.bind_apply, known.readField ref trivial]
            cases watched.record.read name with
            | error cause => rfl
            | ok value => cases value <;> rfl }
      apply := fun slot name value args state =>
        PipeSlot.host_keeps _ state.1 _ slot name value args state.2 }
  exact Evaluator.evaluate_along along (.part 0 binding.place) binding.evaluator binding.evaluations
    (watched, binding.slots)

/-- Notifications are logged, and nothing else is. -/
theorem log_of_enacts {detector : Detector Watched Empty} (wired : detector.registry = registry)
    (logged : detector.dispatcher = logging) {scope : Scope} {events : List Event}
    {watched later : Watched} (enacts : detector.Enacts host scope events watched later) :
    later.log = watched.log ++ events.flatMap Event.calls := by
  induction enacts with
  | nil => exact (List.append_nil _).symm
  | @evaluated _ binding _ _ _ state between _ _ ran _ ih =>
    have kept := evaluate_keeps scope binding state
    rw [← wired, ran] at kept
    obtain rfl : between = state := kept
    exact ih
  | handed called _ ih =>
    rw [logged] at called
    cases called
    rw [ih]
    exact List.append_assoc _ _ _
  | dropped _ ih => exact ih

variable {watched : Watched}

/-- The names of a scenario mean values of its documents. -/
theorem setting_tidy (barren : Epoch.Barren) (scenario : Scenario) (own : watched.record.Foreign)
    (place : Place) :
    Setting.Tidy { host, scope := scenario.scope, pipes := PipeSlot.host registry place }
      (PipeSlot.Steady watched) := by
  have known : host.Records (fun _ => True) fun watched _ => watched.record := host_records _
  let context : ObjectRef := { id := 0, typeName := scenario.contextType }
  have reads (name : String) (found : Value) (read : watched.record.read name = .ok found) :
      Value.Tidy found := (own.read read).sound _
  have access {access : Access Watched Value} (result : Except ValueError Value)
      (held : ∀ found, result = .ok found → Value.Tidy found)
      (answers : access watched = (result, watched)) :
      Ensures (PipeSlot.Steady watched) Value.Tidy (.access access : Eval Watched _ Value) := by
    rintro ⟨current, slots⟩ ⟨rfl, tidy⟩
    simp only [Eval.access, answers]
    cases result with
    | error cause => exact ⟨⟨rfl, tidy⟩, error_finds _⟩
    | ok value =>
      refine ⟨⟨rfl, tidy⟩, fun found same => ?_⟩
      cases same
      exact held value rfl
  refine ⟨barren, fun name => ?_, fun name args => ?_, fun slot name value args seen =>
    PipeSlot.host_tidy _ watched seen _ slot name args⟩
  · simp only [Scope.readName]
    cases bound : scenario.scope.locals.resolve? name with
    | some value =>
      refine access (.ok value) (fun found same => ?_) rfl
      cases same
      exact (scenario.scope_locals_foreign name value bound).sound _
    | none => exact access _ (reads name) (known.readField context trivial name watched)
  · simp only [Scope.callName]
    cases bound : scenario.scope.locals.resolve? name with
    | some value =>
      have held : value.Tidy := (scenario.scope_locals_foreign name value bound).sound _
      obtain ⟨cause, refused⟩ := Value.call_tidy host barren held name args
      exact access (.error cause) (error_finds cause) (congrFun refused watched)
    | none =>
      -- A field that is read for a call holds no function.
      have read := known.readField context trivial name watched
      have invoked : ∃ cause, host.invoke context name args watched = (.error cause, watched) := by
        rw [known.invoke context trivial]
        simp only [Host.ofFields, Stateful.bind_apply, read]
        cases found : watched.record.read name with
        | error cause => exact ⟨cause, rfl⟩
        | ok value =>
          have held := reads name value found
          cases value with
          | function ref => exact (barren.functions ref held).elim
          | _ => exact ⟨_, rfl⟩
      obtain ⟨cause, refused⟩ := invoked
      exact access (.error cause) (error_finds cause) refused

end Scenario

/-- A watched expression that has met no objects. -/
structure Binding.Tidy (binding : Binding Empty) : Prop where
  evaluator : ∃ source, binding.evaluator = .interpreter source ∧ source.expr.Indirect
  previous : ∀ value, binding.previous = .set value → value.Tidy
  slots : ∀ slot ∈ binding.slots, slot.Tidy

/-- A change between values without objects. -/
structure ChangeRecord.Tidy (record : ChangeRecord) : Prop where
  previous : ∀ value, record.previous = .set value → value.Tidy
  current : record.current.Tidy

theorem Binding.ofRecord_tidy {record : BindingRecord} (indirect : record.source.expr.Indirect)
    (place : Place) : Tidy (.ofRecord .interpreted place record) where
  evaluator := ⟨record.source, rfl, indirect⟩
  previous := nofun
  slots _ member := List.eq_of_mem_replicate member ▸ PipeSlot.empty_tidy

/-- A judgement about a value without objects. -/
theorem Binding.judge_tidy {binding : Binding Empty} (tidy : binding.Tidy)
    {result : Except EvalError Outcome} (seen : ∀ value, result = .ok (.value value) → value.Tidy)
    (purpose : Purpose) :
    (binding.judge purpose result).2.Tidy ∧
      ∀ record, (binding.judge purpose result).1 = .changed record → record.Tidy := by
  generalize ran : binding.judge purpose result = ended
  obtain ⟨finding, after⟩ := ended
  cases Judged.of_judge ran with
  | failed | idle | same | offends => exact ⟨tidy, nofun⟩
  | @changed current =>
    have held := seen current rfl
    refine ⟨⟨tidy.evaluator, fun value same => ?_, tidy.slots⟩, fun record same => ?_⟩
    · cases same
      exact held
    · cases same
      exact ⟨tidy.previous, held⟩

/-- Whatever is handed over is something, and holds no objects. -/
def Event.Proper : Event → Prop
  | handed _ changes => changes ≠ [] ∧ ∀ change ∈ changes, change.2.Tidy
  | evaluated _ _ | dropped _ => True

/-- Changes that are collected for a group, without objects. -/
structure Pending.Proper (pending : Pending) : Prop where
  sound : pending.Sound
  changes : ∀ change ∈ pending.changes, change.2.Tidy

theorem Pending.drop_proper (pending : Pending) : ∀ event ∈ pending.drop, event.Proper := by
  intro event member
  cases grouped : pending.group with
  | none =>
    simp only [drop, grouped] at member
    cases member
  | some group =>
    simp only [drop, grouped, List.mem_singleton] at member
    subst member
    trivial

namespace Pending.Proper

variable {pending : Pending} (proper : pending.Proper)

theorem empty : Proper {} := ⟨empty_sound, nofun⟩

include proper

theorem hand : ∀ event ∈ pending.hand, event.Proper := by
  intro event member
  cases grouped : pending.group with
  | none =>
    simp only [Pending.hand, grouped] at member
    cases member
  | some group =>
    simp only [Pending.hand, grouped, List.mem_singleton] at member
    subst member
    refine ⟨fun none => ?_, proper.changes⟩
    cases grouped.symm.trans (proper.sound.mpr none)

theorem handFor (next : Label) :
    (∀ event ∈ (pending.handFor next).1, event.Proper) ∧ (pending.handFor next).2.Proper := by
  cases grouped : pending.group with
  | none =>
    simp only [Pending.handFor, grouped]
    exact ⟨List.forall_mem_nil _, proper⟩
  | some group =>
    simp only [Pending.handFor, grouped]
    split
    · exact ⟨List.forall_mem_nil _, proper⟩
    · exact ⟨proper.hand, .empty⟩

theorem push (group : Label) (position : Nat) {record : ChangeRecord} (tidy : record.Tidy) :
    (pending.push group position record).Proper where
  sound := push_sound _ _ _ _
  changes := List.forall_mem_append.mpr ⟨proper.changes, List.forall_mem_singleton.mpr tidy⟩

end Pending.Proper

namespace Scenario

variable (barren : Epoch.Barren) (scenario : Scenario) {watched : Watched}
include barren

/-- An evaluation finds a value without objects and leaves the application alone. -/
theorem evaluate_tidy (own : watched.record.Foreign) {binding : Binding Empty} (tidy : binding.Tidy) :
    ∃ result evaluated,
      binding.evaluate host registry scenario.scope watched = ((result, evaluated), watched) ∧
      evaluated.Tidy ∧ ∀ value, result = .ok (.value value) → value.Tidy := by
  obtain ⟨source, interpreted, indirect⟩ := tidy.evaluator
  have setting := scenario.setting_tidy barren own (.part 1 binding.place)
  obtain ⟨⟨stays, slots⟩, found⟩ := Expr.evaluate_tidy setting
    (.part binding.evaluations (.part 0 binding.place)) indirect (watched, binding.slots) ⟨rfl, tidy.slots⟩
  simp only [Binding.evaluate, interpreted, Evaluator.evaluate]
  generalize source.expr.evaluate _ _ (watched, binding.slots) = ran at stays slots found ⊢
  obtain ⟨result, after, kept⟩ := ran
  obtain rfl : after = watched := stays
  refine ⟨result, _, rfl, ⟨⟨source, rfl, indirect⟩, tidy.previous, slots⟩, fun value same => ?_⟩
  exact found (.value value) same value rfl

/-- A detection hands over changes without objects, and at least one at a time. It leaves the record
alone. -/
theorem narrateFrom_tidy {detector : Detector Watched Empty} (wired : detector.registry = registry)
    (logs : detector.dispatcher = logging) {pending : Pending} (proper : pending.Proper)
    (count position : Nat) {bindings : List (Binding Empty)} (tidy : ∀ binding ∈ bindings, binding.Tidy)
    (own : watched.record.Foreign) :
    let told := detector.narrateFrom host scenario.scope .detect pending count position bindings watched
    told.2.record = watched.record ∧ (∀ binding ∈ told.1.1.2, binding.Tidy) ∧
      ∀ event ∈ told.1.2, event.Proper := by
  have calls : ∀ group changes (state : Watched), state.record = watched.record →
      (detector.dispatcher group changes state).2.record = watched.record := by
    intro group changes state same
    rw [logs]
    exact same
  induction bindings generalizing pending count position watched with
  | nil =>
    have stays := @Buffer.flush_stays _ pending.buffer _ watched (·.record = watched.record) calls rfl
    simp only [Detector.narrateFrom, Bind.bind, StateT.bind]
    generalize pending.buffer.flush detector.dispatcher watched = flushed at stays ⊢
    obtain ⟨result, after⟩ := flushed
    cases result <;> exact ⟨stays, List.forall_mem_nil _, proper.hand⟩
  | cons binding bindings ih =>
    obtain ⟨first, others⟩ := List.forall_mem_cons.mp tidy
    have stays := @Buffer.flushFor_stays _ pending.buffer _ watched (·.record = watched.record) calls rfl
      binding.group
    have handed := proper.handFor binding.group
    rcases detector.narrateFrom_cons host scenario.scope .detect pending count position binding bindings
      watched with
      ⟨error, after, flushed, told⟩ |
      ⟨kept, between, result, evaluated, later, flushed, ran, told⟩
    · rw [flushed] at stays
      rw [told]
      exact ⟨stays, tidy, proper.hand⟩
    · rw [flushed] at stays
      have same : between.record = watched.record := stays
      obtain ⟨_, _, found, evaluatedTidy, seen⟩ := evaluate_tidy barren scenario (same ▸ own) first
      rw [← wired, ran] at found
      cases found
      obtain ⟨judgedTidy, changed⟩ := Binding.judge_tidy evaluatedTidy seen .detect
      have before : ∀ event ∈ (pending.handFor binding.group).1 ++ [.evaluated position result],
          event.Proper := List.forall_mem_append.mpr ⟨handed.1, List.forall_mem_singleton.mpr trivial⟩
      rw [told]
      generalize evaluated.judge .detect result = judgement at judgedTidy changed ⊢
      obtain ⟨finding, judged⟩ := judgement
      cases finding with
      | failed error =>
        exact ⟨same, List.forall_mem_cons.mpr ⟨judgedTidy, others⟩,
          List.forall_mem_append.mpr ⟨before, Pending.drop_proper _⟩⟩
      | same =>
        obtain ⟨record, rest, events⟩ := ih handed.2 count (position + 1) others (same ▸ own)
          (same ▸ calls)
        exact ⟨record.trans same, List.forall_mem_cons.mpr ⟨judgedTidy, rest⟩,
          List.forall_mem_append.mpr ⟨before, events⟩⟩
      | changed record =>
        obtain ⟨kept, rest, events⟩ := ih (handed.2.push judged.group position (changed record rfl))
          (count + 1) (position + 1) others (same ▸ own) (same ▸ calls)
        exact ⟨kept.trans same, List.forall_mem_cons.mpr ⟨judgedTidy, rest⟩,
          List.forall_mem_append.mpr ⟨before, events⟩⟩

end Scenario
end ChangeWatch
