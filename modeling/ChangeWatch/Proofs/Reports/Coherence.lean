import ChangeWatch.Proofs.Reports.Chains
import ChangeWatch.Proofs.Timeless.Reports

/-!
Reports of scenarios are coherent. One detection that succeeds leaves a listener with the remembered
values, so the next one reports changes from these. One that fails ends the run, and the changes that it
has remembered but not handed over are never missed.
-/
namespace ChangeWatch

open Forest (single soleId)

section Parsing

variable {reading : Reading} {text location : String} {source : Source}

/-- Where a text stands makes no difference to how it is read. -/
theorem parse_elsewhere (parsed : parse reading text location = .ok source) (other : String) :
    parse reading text other = .ok { source with location := other } := by
  simp only [parse] at parsed ⊢
  split at parsed
  · cases parsed
    rfl
  · cases parsed

theorem ParseCache.parse_ok (cache : ParseCache) {key : CacheKey}
    (parsed : ChangeWatch.parse key.reading key.text location = .ok source) :
    ∃ shared, (cache.parse key).1 = .ok shared := by
  simp only [ParseCache.parse]
  cases cache.find? key with
  | some shared => exact ⟨shared, rfl⟩
  | none =>
    rw [parse_elsewhere parsed key.location]
    exact ⟨_, rfl⟩

end Parsing

namespace BindingSpec

def reading (spec : BindingSpec) : Reading := if spec.interpolation then .interpolation else .binding

/-- The name under which changes are reported: the text of the expression, unless there is another. -/
def name (spec : BindingSpec) : String := spec.id.getD spec.expression

def Parses (spec : BindingSpec) : Prop :=
  ∃ location source, parse spec.reading spec.expression location = .ok source

end BindingSpec

/-- A run without an error. -/
structure Complete (steps : Nat) (reports : List StepReport) : Prop where
  length : reports.length = steps
  fine : ∀ report ∈ reports, report.error = none

/-- A run that the first error ends. -/
structure Broken (steps : Nat) (reports : List StepReport) : Prop where
  length : reports.length ≤ steps
  last : ∃ before report, reports = before ++ [report] ∧ report.error ≠ none ∧
    ∀ report ∈ before, report.error = none

/-- Reports on a number of steps that fit together. -/
structure Coherent (steps : Nat) (reports : List StepReport) : Prop where
  numbered : reports.map StepReport.step = List.range reports.length
  ends : Complete steps reports ∨ Broken steps reports
  groups : ∀ report ∈ reports, ∀ group ∈ report.groups, group.changes ≠ []
  once : ∀ report ∈ reports, (report.changes.map ChangeReport.binding).Nodup
  chained : ∀ name, Chained none ((reports.flatMap StepReport.changes).filter (·.binding == name))

theorem Checked.change?_eq_some {checked : Checked κ} {record : ChangeRecord}
    (changed : checked.change? = some record) :
    record.binding = checked.binding.id ∧ record.previous = checked.binding.previous := by
  simp only [Checked.change?] at changed
  split at changed
  · cases changed
  · split at changed <;> cases changed
    exact ⟨rfl, rfl⟩

/-- What a check hands over are changes of different expressions, each from the value that a listener knows
if it knows what is remembered. -/
theorem Progress.Explains.follows {progress : Progress κ} {bindings : List (Binding κ)} {view : View}
    {told : (Except CheckError Nat × List (Binding κ)) × List Event} {count : Nat}
    (explains : progress.Explains {} count 0 bindings told) (known : view.Shows bindings) :
    ((Event.heardIn told.2).map Prod.fst).Nodup ∧
      view.Follows (bindings.map Binding.id) (Event.heardIn told.2) := by
  have settles : Event.heardIn told.2 ++ Event.lostIn told.2 = progress.changes := explains.settles
  have positions := explains.changes_distinct
  rw [← settles, List.map_append, List.nodup_append] at positions
  refine ⟨positions.1, View.follows_of_distinct positions.1 fun change heard => ?_⟩
  obtain ⟨position, record⟩ := change
  have found : (position, record) ∈ progress.changes := settles ▸ List.mem_append_left _ heard
  obtain ⟨checked, passed, changed⟩ := explains.checked_of_change found
  have listed := (explains.getElem?_of_checked passed).1
  obtain ⟨label, previous⟩ := Checked.change?_eq_some changed
  constructor
  · rw [List.getElem?_map, listed, label]
    rfl
  · exact previous.trans (known position checked.binding listed)

namespace Scenario

theorem recordsFrom_ok {specs : List BindingSpec} (parses : ∀ spec ∈ specs, spec.Parses)
    (cache : ParseCache) (index : Nat) :
    ∃ records, recordsFrom cache index specs = .ok records ∧
      records.map BindingRecord.binding = specs.map fun spec => ⟨spec.name⟩ := by
  induction specs generalizing cache index with
  | nil => exact ⟨[], rfl, rfl⟩
  | cons spec specs ih =>
    obtain ⟨⟨location, source, parsed⟩, others⟩ := List.forall_mem_cons.mp parses
    let key : CacheKey :=
      { reading := spec.reading, text := spec.expression, location := s!"bindings[{index}]" }
    obtain ⟨shared, found⟩ := @ParseCache.parse_ok location source cache key parsed
    obtain ⟨records, read, names⟩ := ih others (cache.parse key).2 (index + 1)
    let record : BindingRecord :=
      { source := shared.source, binding := ⟨spec.name⟩, group := ⟨spec.group.getD "default"⟩ }
    have built : bindingRecord cache index spec = (.ok record, (cache.parse key).2) := by
      change ((cache.parse key).1.map _, _) = _
      rw [found]
      rfl
    refine ⟨record :: records, ?_, congrArg _ names⟩
    simp only [recordsFrom, built, Bind.bind, Except.bind, read]
    rfl

/-- What a listener hears in a step. -/
structure Tells (labels : List Label) (view : View) (told : StepReport)
    (heard : List (Nat × ChangeRecord)) : Prop where
  changes : told.changes = heard.map fun change => change.2.report
  groups : ∀ group ∈ told.groups, group.changes ≠ []
  distinct : (heard.map Prod.fst).Nodup
  follows : view.Follows labels heard

/-- Reports of the steps from some point on. -/
structure Reported (labels : List Label) (view : View) (index steps : Nat)
    (reports : List StepReport) : Prop where
  numbered : reports.map StepReport.step = List.range' index reports.length
  ends : Complete steps reports ∨ Broken steps reports
  groups : ∀ report ∈ reports, ∀ group ∈ report.groups, group.changes ≠ []
  once : ∀ report ∈ reports, (report.changes.map ChangeReport.binding).Nodup
  follows : ∃ heard, reports.flatMap StepReport.changes = heard.map (fun change => change.2.report) ∧
    view.Follows labels heard

variable {labels : List Label} {view : View}

theorem Tells.once {told : StepReport} {heard : List (Nat × ChangeRecord)}
    (tells : Tells labels view told heard) (distinct : labels.Nodup) :
    (told.changes.map ChangeReport.binding).Nodup := by
  rw [tells.changes]
  exact tells.follows.names_distinct distinct tells.distinct

/-- One more report without an error in front. -/
theorem Reported.cons {index steps : Nat} {told : StepReport} {reports : List StepReport}
    {heard : List (Nat × ChangeRecord)} (distinct : labels.Nodup) (step : told.step = index)
    (tells : Tells labels view told heard) (fine : told.error = none)
    (others : Reported labels (view.hear heard) (index + 1) steps reports) :
    Reported labels view index (steps + 1) (told :: reports) where
  numbered := by simp only [List.map_cons, step, others.numbered, List.length_cons, List.range'_succ]
  ends := by
    refine others.ends.imp (fun complete => ?_) fun broken => ?_
    · exact ⟨congrArg (· + 1) complete.length, List.forall_mem_cons.mpr ⟨fine, complete.fine⟩⟩
    · obtain ⟨before, report, rfl, failed, earlier⟩ := broken.last
      exact ⟨Nat.succ_le_succ broken.length,
        told :: before, report, rfl, failed, List.forall_mem_cons.mpr ⟨fine, earlier⟩⟩
  groups := List.forall_mem_cons.mpr ⟨tells.groups, others.groups⟩
  once := List.forall_mem_cons.mpr ⟨tells.once distinct, others.once⟩
  follows := by
    obtain ⟨later, told, follows⟩ := others.follows
    exact ⟨heard ++ later, by rw [List.flatMap_cons, tells.changes, told, List.map_append],
      tells.follows.append follows⟩

/-- The report of a step that fails. -/
theorem Reported.failed {index steps : Nat} {told : StepReport} {heard : List (Nat × ChangeRecord)}
    (distinct : labels.Nodup) (step : told.step = index) (tells : Tells labels view told heard)
    (failed : told.error ≠ none) : Reported labels view index (steps + 1) [told] where
  numbered := congrArg (fun step => [step]) step
  ends := .inr ⟨Nat.succ_le_succ (Nat.zero_le steps), [], told, rfl, failed, nofun⟩
  groups := List.forall_mem_singleton.mpr tells.groups
  once := List.forall_mem_singleton.mpr (tells.once distinct)
  follows := ⟨heard, (List.flatMap_singleton _ _).trans tells.changes, tells.follows⟩

/-- Reports of a whole run fit together for a listener who has heard of nothing before. -/
theorem Reported.coherent {steps : Nat} {reports : List StepReport} (distinct : labels.Nodup)
    (reported : Reported labels (fun _ => .uninitialized) 0 steps reports) : Coherent steps reports where
  numbered := reported.numbered.trans List.range_eq_range'.symm
  ends := reported.ends
  groups := reported.groups
  once := reported.once
  chained name := by
    obtain ⟨heard, told, follows⟩ := reported.follows
    rw [told]
    by_cases known : (⟨name⟩ : Label) ∈ labels
    · obtain ⟨position, labelled⟩ := List.getElem?_of_mem known
      exact follows.chained distinct labelled
    · rw [follows.unlabelled known]
      trivial

/-- The reports of a scenario, under any configuration. -/
theorem run_eq_interpreted (scenario : Scenario) (config : Config) {records : List BindingRecord}
    (read : recordsFrom {} 0 scenario.bindings = .ok records) :
    scenario.run config = .ok (Scenario.reportsFrom { root := soleId, enforceNoNewChanges := false } 0
      ({} :: scenario.steps) ({ record := Record.ofJson scenario.contextType (.host 0) scenario.context },
        single (scenario.detector records .interpreted))).1 := by
  let start : Epoch.Uncalled := Epoch.uncalled fun _ => True
  obtain ⟨watches, holds⟩ := exists_watches (recordsFrom_owned (nofun : ParseCache.Owned {}) 0 read) 0 0
  have own := Record.ofJson_foreign (show (Place.host 0).isHost = true from rfl) scenario.contextType
    scenario.context
  rw [scenario.run_of_records config read]
  congr 1
  exact reportsFrom_twins (scenario.detector_twins holds _ _ _) (scenario.scope_foreign trivial) own
    rfl rfl rfl rfl 0 ({} :: scenario.steps)

section Steps

variable [Epoch.Uncalled]

/-- A detector between two steps of a scenario, and what a listener has heard of its expressions. -/
structure Between (scenario : Scenario) (labels : List Label) (view : View) (watched : Watched)
    (detector : Detector Watched Empty) : Prop where
  wired : detector.registry = registry
  logged : detector.dispatcher = logging
  scope : detector.scope = some scenario.scope
  always : detector.mode = .checkAlways
  labels : detector.bindings.map Binding.id = labels
  tidy : ∀ binding ∈ detector.bindings, binding.Tidy
  known : view.Shows detector.bindings
  record : watched.record.Foreign
  log : watched.log = []

variable {scenario : Scenario} {watched : Watched} {detector : Detector Watched Empty}

/-- A detection hands over changes from known values, and if it succeeds the remembered values are
known. -/
theorem Between.detect (between : Between scenario labels view watched detector)
    (barren : Epoch.Barren) :
    ∃ result bindings after events,
      detector.check host .detect watched = ((result, { detector with bindings }), after) ∧
      after.log = events.flatMap Event.calls ∧ (∀ event ∈ events, event.Proper) ∧
      ((Event.heardIn events).map Prod.fst).Nodup ∧ view.Follows labels (Event.heardIn events) ∧
      ∀ count, result = .ok count → Between scenario labels (view.hear (Event.heardIn events))
        { after with log := [] } { detector with bindings } := by
  obtain ⟨progress, explains⟩ := detector.narrateFrom_explained host scenario.scope .detect
    Pending.empty_sound 0 0 detector.bindings watched
  have logged := log_of_enacts between.wired between.logged
    (detector.narrateFrom_enacts host scenario.scope .detect {} 0 (List.drop_zero) watched)
  obtain ⟨record, tidy, proper⟩ := narrateFrom_tidy barren scenario between.wired between.logged .empty
    0 0 between.tidy between.record
  have erased := detector.narrateFrom_erases host scenario.scope .detect {} 0 0 detector.bindings watched
  have ran := Detector.check_of_scope host between.scope .detect watched
  rw [show ({} : Buffer) = Pending.buffer {} from rfl, erased] at ran
  generalize detector.narrateFrom host scenario.scope .detect {} 0 0 detector.bindings watched = told
    at explains logged record tidy proper ran
  obtain ⟨⟨⟨result, bindings⟩, events⟩, after⟩ := told
  obtain ⟨distinct, follows⟩ := explains.follows between.known
  rw [between.labels] at follows
  refine ⟨result, bindings, after, events, ran, ?_, proper, distinct, follows, ?_⟩
  · simpa only [between.log, List.nil_append] using logged
  · rintro count rfl
    obtain ⟨all, rest, -, -⟩ := explains.passes count rfl
    have labels : bindings.map Binding.id = detector.bindings.map Binding.id := by
      rw [← explains.found, show bindings = _ from explains.leaves, all, rest, List.append_nil,
        List.append_nil, List.map_map, List.map_map]
      rfl
    have settles : Event.heardIn events ++ Event.lostIn events = progress.changes := explains.settles
    have shows := explains.shows_changes between.known
    rw [← settles, explains.lostIn_of_ok rfl, List.append_nil] at shows
    exact
      { between with
        labels := labels.trans between.labels
        tidy
        known := shows
        record := (record : after.record = watched.record) ▸ between.record
        log := rfl }

/-- A step reports changes from known values, and without an error these are known then. -/
theorem Between.report (between : Between scenario labels view watched detector)
    (barren : Epoch.Barren) (index : Nat) (step : Step) :
    ∃ told after bindings heard,
      report { root := soleId, enforceNoNewChanges := false } index step (watched, single detector) =
        (told, (after, single { detector with bindings })) ∧
      told.step = index ∧ Tells labels view told heard ∧
      (told.error = none →
        Between scenario labels (view.hear heard) after { detector with bindings }) := by
  let changed : Watched :=
    { watched with record := applyStep (.host (index + 2)) step watched.record }
  have start : Between scenario labels view changed detector :=
    { between with record := applyStep_foreign rfl step between.record }
  obtain ⟨result, bindings, after, events, ran, log, proper, distinct, follows, fine⟩ :=
    start.detect barren
  have ticked : LifeCycle.tick host { root := soleId, enforceNoNewChanges := false }
      (changed, single detector) =
        (CheckError.verdict result, (after, single { detector with bindings })) := by
    have detected : Tree.detectChanges host soleId (changed, single detector) =
        (CheckError.verdict result, (after, single { detector with bindings })) := by
      rw [Tree.detectChanges, Tree.pass_single host .detect between.always, ran]
      rfl
    cases result with
    | error cause => exact Stateful.bind_of_error detected
    | ok count => exact Stateful.bind_of_ok detected
  refine ⟨_, _, bindings, Event.heardIn events, report_of_tick ticked, rfl, ⟨?_, ?_, distinct, follows⟩,
    ?_⟩
  · simp only [StepReport.changes, log]
    exact Event.reported barren after proper
  · simp only [log]
    exact Event.groups_nonempty after proper
  · intro passed
    cases result with
    | error cause => cases passed
    | ok count => exact fine count rfl

/-- Reports up to the first error fit together. -/
theorem Between.reportsFrom (between : Between scenario labels view watched detector)
    (barren : Epoch.Barren) (distinct : labels.Nodup) (index : Nat) (steps : List Step) :
    Reported labels view index steps.length
      (reportsFrom { root := soleId, enforceNoNewChanges := false } index steps
        (watched, single detector)).1 := by
  induction steps generalizing index view watched detector with
  | nil => exact ⟨rfl, .inl ⟨rfl, nofun⟩, nofun, nofun, [], rfl, trivial⟩
  | cons step steps ih =>
    obtain ⟨told, after, bindings, heard, reported, number, tells, fine⟩ :=
      between.report barren index step
    simp only [Scenario.reportsFrom, Bind.bind, StateT.bind, reported]
    cases failed : told.error with
    | none => exact .cons distinct number tells failed (ih (fine failed) (index + 1))
    | some message =>
      have alone : Reported labels view index (steps.length + 1) [told] :=
        .failed distinct number tells (by simp [failed])
      exact alone

/-- The detector of a scenario before its first step. Nobody has heard of anything. -/
theorem Between.start (scenario : Scenario) {records : List BindingRecord}
    (indirect : ∀ record ∈ records, record.source.expr.Indirect) {record : Record}
    (own : record.Foreign) :
    Between scenario (records.map BindingRecord.binding) (fun _ => .uninitialized) { record }
      (scenario.detector records .interpreted) where
  wired := rfl
  logged := rfl
  scope := rfl
  always := rfl
  labels := by
    simp only [detector, Detector.hydrate, Proto.instantiate, List.map_map]
    rw [← congrArg (List.map BindingRecord.binding) (List.zipIdx_map_fst 0 records), List.map_map]
    rfl
  tidy binding member := by
    obtain ⟨⟨entry, index⟩, listed, rfl⟩ := List.mem_map.mp member
    exact Binding.ofRecord_tidy (indirect entry (List.fst_mem_of_mem_zipIdx listed)) _
  known position binding found := by
    obtain ⟨⟨entry, index⟩, -, rfl⟩ := List.mem_map.mp (List.mem_of_getElem? found)
    rfl
  record := own
  log := rfl

end Steps

/-- Whatever the configuration, the reports of a scenario whose expressions parse and have different names
fit together. They are numbered from zero, and either there is one for every step and one before them
and none has an error, or the last one has and no other. No group is without changes, no step reports
an expression twice, and every change of an expression begins with the value that was reported for it
last, the first one with none. -/
theorem run_coherent (scenario : Scenario) (config : Config)
    (parses : ∀ spec ∈ scenario.bindings, spec.Parses)
    (distinct : (scenario.bindings.map BindingSpec.name).Nodup) :
    ∃ reports, scenario.run config = .ok reports ∧ Coherent (scenario.steps.length + 1) reports := by
  obtain ⟨records, read, names⟩ := recordsFrom_ok parses {} 0
  let start : Epoch.Uncalled := Epoch.uncalled fun _ => False
  have barren : Epoch.Barren := ⟨fun _ => id, fun _ => id⟩
  have given : Source.Given fun source => source.expr.Indirect :=
    fun _ _ _ _ parsed => parse_indirect parsed
  have empty : ParseCache.Every (fun source => source.expr.Indirect) {} := fun _ => nofun
  have indirect := recordsFrom_every given empty 0 read
  have own := Record.ofJson_foreign (show (Place.host 0).isHost = true from rfl) scenario.contextType
    scenario.context
  have labels : (records.map BindingRecord.binding).Nodup := by
    rw [names]
    refine List.Nodup.of_map Label.text ?_
    rwa [List.map_map]
  have reported := (Between.start scenario indirect own).reportsFrom barren labels 0
    ({} :: scenario.steps)
  exact ⟨_, scenario.run_eq_interpreted config read, reported.coherent labels⟩

/-- Two expressions, a step that changes both, and a step in which the second one fails. -/
def counting : Scenario where
  context := [("x", .number (.natural 1)), ("y", .number (.natural 3))]
  bindings := [{ expression := "x" }, { expression := "x + y", id := some "sum", group := some "sums" }]
  steps := [{ set := [("x", .number (.natural 2))] }, { remove := ["y"] }]

theorem counting_parses : ∀ spec ∈ counting.bindings, spec.Parses := by
  have parses {spec : BindingSpec}
      (fine : (parse spec.reading spec.expression "").isOk = true) : spec.Parses := by
    cases parsed : parse spec.reading spec.expression "" with
    | ok source => exact ⟨"", source, parsed⟩
    | error cause =>
      rw [parsed] at fine
      cases fine
  simp only [counting, List.forall_mem_cons, List.not_mem_nil, false_implies, implies_true, and_true]
  exact ⟨parses (by decide +kernel), parses (by decide +kernel)⟩

theorem run_coherent_counting :
    (∀ spec ∈ counting.bindings, spec.Parses) ∧ (counting.bindings.map BindingSpec.name).Nodup ∧
      ∃ reports, counting.run {} = .ok reports ∧ Coherent 3 reports ∧
        reports.map (fun report => (report.changes.map ChangeReport.binding, report.error.isSome)) =
          [(["x", "sum"], false), (["x", "sum"], false), ([], true)] := by
  have distinct : (counting.bindings.map BindingSpec.name).Nodup := by decide
  obtain ⟨reports, ran, coherent⟩ := run_coherent counting {} counting_parses distinct
  have shown : (counting.run {}).toOption.map (List.map fun report =>
      (report.changes.map ChangeReport.binding, report.error.isSome)) =
      some [(["x", "sum"], false), (["x", "sum"], false), ([], true)] := by decide +kernel
  rw [ran] at shown
  exact ⟨counting_parses, distinct, reports, ran, coherent, Option.some.inj shown⟩

end Scenario
end ChangeWatch
