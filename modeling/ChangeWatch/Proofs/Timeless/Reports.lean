import ChangeWatch.Proofs.Solitary
import ChangeWatch.Proofs.Timeless.Records
import ChangeWatch.Proofs.Timeless.Scenarios

/-!
What a scenario reports does not depend on its configuration. A tick under any configuration is the
detection of any other one up to time, and reports do not show time.
-/
namespace ChangeWatch

open Forest (single soleId)
open List (Forall₂)
open Scenario (Watched)

namespace Scenario

/-- A detector of a scenario that is always checked, with the application in some state. -/
abbrev Twins [Epoch.Uncalled] (watches : List Watch) (scope : Scope)
    (first second : Watched × Detector Watched Empty) : Prop :=
  ChangeWatch.Twins registry.hosted logging Alike watches scope first second

end Scenario

section Tick

variable [Epoch.Uncalled] {detector other next : Detector Watched Empty} {watches : List Watch}
  {scope : Scope}
  {watched watched' after : Watched} {lifeCycle lifeCycle' : LifeCycle}

/-- A tick is its detection. A verification behind it finds nothing. -/
theorem tick_of_detection {result : Except CheckError Nat} (always : detector.mode = .checkAlways)
    {bindings : List (Binding Empty)}
    (ran : detector.check Scenario.host .detect watched =
      ((result, { detector with bindings }), after))
    (watching : Detector.Watches { detector with bindings } Scenario.registry.hosted Scenario.logging
      watches scope)
    (foreign : scope.Foreign) (own : after.record.Foreign)
    (settled : ∀ count, result = .ok count → Detector.Settled { detector with bindings } watches
      (Scenario.application.mirror (Scenario.application.view after)) scope)
    (root : lifeCycle.root = soleId) :
    ∃ bindings', lifeCycle.tick Scenario.host (watched, single detector) =
        (CheckError.verdict result, (after, single { detector with bindings := bindings' })) ∧
      Detector.Watches { detector with bindings := bindings' } Scenario.registry.hosted
        Scenario.logging watches scope ∧
      bindings'.map Binding.image = bindings.map Binding.image := by
  have detected : Tree.detectChanges Scenario.host soleId (watched, single detector) =
      (CheckError.verdict result, (after, single { detector with bindings })) := by
    rw [Tree.detectChanges, Tree.pass_single Scenario.host .detect always, ran]
    rfl
  rw [LifeCycle.tick, root]
  cases result with
  | error cause => exact ⟨bindings, Stateful.bind_of_error detected, watching, rfl⟩
  | ok count =>
    rw [Stateful.bind_of_ok detected]
    split
    · obtain ⟨last, verified, watchingLast, images⟩ :=
        verify_twin watching foreign (Scenario.application_sane own) (settled count rfl)
      refine ⟨last, ?_, watchingLast, images⟩
      have stays : Detector.mode { detector with bindings } = .checkAlways := always
      change Detector.check Scenario.host _ _ _ = _ at verified
      rw [Tree.checkNoChanges, Tree.pass_single Scenario.host .verify stays, verified]
      rfl
    · exact ⟨bindings, rfl, watching, rfl⟩

/-- Ticks under any two configurations come to the same. -/
theorem tick_twins (twins : Scenario.Twins watches scope (watched, detector) (watched', other))
    (foreign : scope.Foreign) (own : watched.record.Foreign)
    (always : detector.mode = .checkAlways) (always' : other.mode = .checkAlways)
    (root : lifeCycle.root = soleId) (root' : lifeCycle'.root = soleId) :
    ∃ result after after' bindings bindings',
      lifeCycle.tick Scenario.host (watched, single detector) =
        (result, (after, single { detector with bindings })) ∧
      lifeCycle'.tick Scenario.host (watched', single other) =
        (result, (after', single { other with bindings := bindings' })) ∧
      Scenario.Twins watches scope (after, { detector with bindings })
        (after', { other with bindings := bindings' }) ∧
      after.record = watched.record := by
  obtain ⟨result, after, after', between, between', ran, ran', between_twins, views, settled⟩ :=
    detect_twins Scenario.logging_blind twins foreign (Scenario.application_sane own)
  obtain ⟨watching, watching', images, states⟩ := between_twins
  have record : after.record = watched.record := congrFun views { id := 0, typeName := "" }
  have own : after.record.Foreign := record ▸ own
  have same := Scenario.logging_blind.views after after' states
  have seen : between'.map Binding.image = between.map Binding.image := images.symm
  have settled' (count : Nat) (passed : result = .ok count) :
      Detector.Settled { other with bindings := between' } watches
        (Scenario.application.mirror (Scenario.application.view after')) scope := by
    rw [Detector.Settled, same, seen]
    exact settled count passed
  obtain ⟨bindings, ticked, watching, imagesFirst⟩ :=
    tick_of_detection always ran watching foreign own settled root
  obtain ⟨bindings', ticked', watching', imagesOther⟩ :=
    tick_of_detection always' ran' watching' foreign (states.record ▸ own) settled' root'
  exact ⟨_, after, after', bindings, bindings', ticked, ticked',
    ⟨watching, watching', (imagesFirst.trans images).trans imagesOther.symm, states⟩, record⟩

end Tick

namespace Scenario

section Start

variable [Epoch.Uncalled]

theorem ofRecord_timeless (watched : Watched) (change : ChangeRecord) :
    ofRecord watched.timeless change.timeless = ofRecord watched change := by
  have shown (value : Value) :
      value.timeless.toJson (host.fields watched.timeless) (host.nesting watched.timeless) =
        value.toJson (host.fields watched) (host.nesting watched) :=
    Value.toJson_timeless _ _ value
  simp only [ofRecord, ChangeRecord.timeless, shown]
  cases change.previous with
  | uninitialized => rfl
  | set previous => simp only [Cached.timeless, Cached.value?, Option.map_some, shown]

theorem ofNotification_timeless (watched : Watched) (notification : Notification) :
    ofNotification watched.timeless notification.timeless = ofNotification watched notification := by
  simp only [ofNotification, Notification.timeless, List.map_map]
  congr 1
  exact List.map_congr_left fun change _ => ofRecord_timeless watched change

/-- Reports do not show time. -/
theorem groups_timeless (watched : Watched) :
    watched.timeless.log.map (ofNotification watched.timeless) =
      watched.log.map (ofNotification watched) := by
  simp only [Watched.timeless, List.map_map]
  exact List.map_congr_left fun notification _ => ofNotification_timeless watched notification

section Twins

variable {detector other : Detector Watched Empty} {watches : List Watch} {scope : Scope}
  {watched watched' : Watched} {lifeCycle lifeCycle' : LifeCycle}

/-- The error of a report. -/
def failure? : Except DetectorError Unit → Option String
  | .ok () => none
  | .error cause => some cause.message

omit [Epoch.Uncalled] in
theorem report_of_tick {index : Nat} {step : Step} {tree later : Tree Watched Empty}
    {after : Watched} {result : Except DetectorError Unit}
    (ticked : lifeCycle.tick host
      ({ watched with record := applyStep (.host (index + 2)) step watched.record }, tree) =
        (result, (after, later))) :
    report lifeCycle index step (watched, tree) =
      ({ step := index
         groups := after.log.map (ofNotification after)
         error := failure? result }, ({ after with log := [] }, later)) := by
  simp only [report]
  rw [ticked]
  rfl

/-- A step reports the same under any two configurations. -/
theorem report_twins (twins : Twins watches scope (watched, detector) (watched', other))
    (foreign : scope.Foreign) (own : watched.record.Foreign)
    (always : detector.mode = .checkAlways) (always' : other.mode = .checkAlways)
    (root : lifeCycle.root = soleId) (root' : lifeCycle'.root = soleId) (index : Nat) (step : Step) :
    ∃ told after after' bindings bindings',
      report lifeCycle index step (watched, single detector) =
        (told, (after, single { detector with bindings })) ∧
      report lifeCycle' index step (watched', single other) =
        (told, (after', single { other with bindings := bindings' })) ∧
      Twins watches scope (after, { detector with bindings })
        (after', { other with bindings := bindings' }) ∧
      after.record.Foreign := by
  let change (record : Record) : Record := applyStep (.host (index + 2)) step record
  have changedOwn : (change watched.record).Foreign := applyStep_foreign rfl step own
  have alike : Alike watched watched' := twins.states
  have changed : Twins watches scope ({ watched with record := change watched.record }, detector)
      ({ watched' with record := change watched'.record }, other) :=
    { twins with states := by simp only [Alike, Watched.timeless, alike.record, alike.log] }
  obtain ⟨result, after, after', bindings, bindings', ticked, ticked', twinsAfter, record⟩ :=
    tick_twins changed foreign changedOwn always always' root root'
  have states : Alike after after' := twinsAfter.states
  have groups : after.log.map (ofNotification after) = after'.log.map (ofNotification after') := by
    rw [← groups_timeless, ← groups_timeless after', show after.timeless = after'.timeless from states]
  have reported' := report_of_tick ticked'
  rw [← groups] at reported'
  exact ⟨_, _, _, bindings, bindings', report_of_tick ticked, reported',
    { twinsAfter with states := by simp only [Alike, Watched.timeless, states.record] },
    record ▸ changedOwn⟩

theorem reportsFrom_twins (twins : Twins watches scope (watched, detector) (watched', other))
    (foreign : scope.Foreign) (own : watched.record.Foreign)
    (always : detector.mode = .checkAlways) (always' : other.mode = .checkAlways)
    (root : lifeCycle.root = soleId) (root' : lifeCycle'.root = soleId) (index : Nat)
    (steps : List Step) :
    (reportsFrom lifeCycle index steps (watched, single detector)).1 =
      (reportsFrom lifeCycle' index steps (watched', single other)).1 := by
  induction steps generalizing index watched watched' detector other with
  | nil => rfl
  | cons step steps ih =>
    obtain ⟨told, after, after', bindings, bindings', reported, reported', twinsAfter, ownAfter⟩ :=
      report_twins twins foreign own always always' root root' index step
    have others := ih twinsAfter ownAfter always always' (index + 1)
    simp only [reportsFrom, Bind.bind, StateT.bind, reported, reported']
    split
    · rfl
    · exact congrArg (told :: ·) others

end Twins

/-- The detector of a scenario before its first step. -/
def detector (scenario : Scenario) (records : List BindingRecord) (strategy : Strategy) :
    Detector Watched Empty :=
  let proto : Proto Watched Empty := { name := "scenario", registry, strategy }
  (proto.instantiate (.detector 0) logging records (scenario.locals.map Prod.fst)).hydrate
    scenario.scope.context scenario.scope.locals

omit [Epoch.Uncalled] in
theorem run_of_records (scenario : Scenario) (config : Config) {records : List BindingRecord}
    (read : recordsFrom {} 0 scenario.bindings = .ok records) :
    scenario.run config = .ok (reportsFrom (.ofConfig soleId config) 0 ({} :: scenario.steps)
      ({ record := Record.ofJson scenario.contextType (.host 0) scenario.context },
        single (scenario.detector records config.strategy))).1 := by
  simp only [run, read, Bind.bind, Except.bind]
  rfl

theorem detector_twins (scenario : Scenario) {records : List BindingRecord} {watches : List Watch}
    (holds : ∀ strategy, Forall₂ Watch.Holds watches (scenario.detector records strategy).bindings)
    (watched : Watched) (strategy strategy' : Strategy) :
    Twins watches scenario.scope (watched, scenario.detector records strategy)
      (watched, scenario.detector records strategy') where
  watching := ⟨rfl, rfl, rfl, holds strategy⟩
  watching' := ⟨rfl, rfl, rfl, holds strategy'⟩
  images := by
    simp only [detector, Detector.hydrate, Proto.instantiate, List.map_map]
    rfl
  states := rfl

end Start

/-- What a scenario reports does not depend on its configuration: not on how expressions are
evaluated, and not on whether detections are verified. -/
theorem run_independent_of_config (scenario : Scenario) (config config' : Config) :
    scenario.run config = scenario.run config' := by
  cases read : recordsFrom {} 0 scenario.bindings with
  | error cause => simp only [run, read, Bind.bind, Except.bind]
  | ok records =>
    let start : Epoch.Uncalled := Epoch.uncalled fun _ => True
    have none : ParseCache.Owned {} := nofun
    have hosted : (Place.host 0).isHost = true := rfl
    obtain ⟨watches, holds⟩ := exists_watches (recordsFrom_owned none 0 read) 0 0
    have own := Record.ofJson_foreign hosted scenario.contextType scenario.context
    rw [scenario.run_of_records config read, scenario.run_of_records config' read]
    congr 1
    exact reportsFrom_twins (scenario.detector_twins holds _ _ _) (scenario.scope_foreign trivial) own
      rfl rfl rfl rfl 0 ({} :: scenario.steps)

end Scenario
end ChangeWatch
