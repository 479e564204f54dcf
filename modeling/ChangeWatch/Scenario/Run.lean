import ChangeWatch.Expr.Cache
import ChangeWatch.Host.Record
import ChangeWatch.Scenario.Basic
import ChangeWatch.Scenario.Report
import ChangeWatch.Tree.Pass

/-!
Runs scenarios. One detector watches the record; it looks once before the first step and once after
every step, until something fails.
-/
namespace ChangeWatch.Scenario

/-- The watched record, and the changes that have been reported since the last step. -/
structure Watched where
  record : Record
  log : ChangeLog := []

/-- The application of a scenario: the record is its only object, and there are no functions. -/
def host : Host Watched :=
  .ofFields (fun _ _ => throw (.host "no such function"))
    (fun _ name => do
      let watched ← get
      match watched.record.get? name with
      | some value => return value
      | none => throw (.unknownField watched.record.typeName name))
    (fun watched _ => watched.record.fields)
    (fun _ => 1)

/-- The built-in pipes; the application has none of its own. -/
def registry : Registry Watched Empty :=
  .default { supports := nofun, transform := nofun, destroy := nofun }

/-- Keeps every notification. -/
def logging : Dispatcher Watched := fun group changes watched =>
  (.ok (), { watched with log := watched.log ++ [{ group, changes }] })

def bindingRecord (cache : ParseCache) (index : Nat) (spec : BindingSpec) :
    Except ParseError BindingRecord × ParseCache :=
  let reading := if spec.interpolation then Reading.interpolation else .binding
  let (parsed, cache) := cache.parse
    { reading, text := spec.expression, location := s!"bindings[{index}]" }
  (parsed.map fun shared =>
    { source := shared.source
      binding := ⟨spec.id.getD spec.expression⟩
      group := ⟨spec.group.getD "default"⟩ }, cache)

/-- The records of all expressions, or the error of the first that does not parse. -/
def recordsFrom (cache : ParseCache) (index : Nat) :
    List BindingSpec → Except ParseError (List BindingRecord)
  | [] => .ok []
  | spec :: specs => do
    let (record, cache) := bindingRecord cache index spec
    let record ← record
    let records ← recordsFrom cache (index + 1) specs
    return record :: records

/-- Changes the record; the values set are made at the given place. -/
def applyStep (place : Place) (step : Step) (record : Record) : Record :=
  let fields := Value.ofFields place 0 step.set
  let record := fields.foldl (fun record (name, value) => record.set name value) record
  step.remove.foldl Record.erase record

def ofRecord (watched : Watched) (change : ChangeRecord) : ChangeReport :=
  let json := Value.toJson (host.fields watched) (host.nesting watched)
  { binding := change.binding.text
    previous := change.previous.value?.map json
    current := json change.current }

def ofNotification (watched : Watched) (notification : Notification) : GroupReport :=
  { group := notification.group.text, changes := notification.changes.map (ofRecord watched) }

/-- A step: the record changes, the detector looks, and what it reported is taken from the log. -/
def report (lifeCycle : LifeCycle) (index : Nat) (step : Step) :
    StateM (Watched × Tree Watched Empty) StepReport := fun (watched, tree) =>
  let watched := { watched with record := applyStep (.host (index + 2)) step watched.record }
  let (result, watched, tree) := lifeCycle.tick host (watched, tree)
  let error := match result with
    | .ok () => none
    | .error cause => some cause.message
  let report : StepReport :=
    { step := index, groups := watched.log.map (ofNotification watched), error }
  (report, { watched with log := [] }, tree)

/-- The reports of steps up to and with the first failure. -/
def reportsFrom (lifeCycle : LifeCycle) (index : Nat) :
    List Step → StateM (Watched × Tree Watched Empty) (List StepReport)
  | [] => return []
  | step :: steps => do
    let first ← report lifeCycle index step
    if first.error.isSome then return [first]
    else
      let others ← reportsFrom lifeCycle (index + 1) steps
      return first :: others

/-- All reports of a scenario under a configuration. -/
def run (scenario : Scenario) (config : Config) : Except ParseError (List StepReport) := do
  let records ← recordsFrom {} 0 scenario.bindings
  let proto : Proto Watched Empty := { name := "scenario", registry, strategy := config.strategy }
  let detector := proto.instantiate (.detector 0) logging records (scenario.locals.map Prod.fst)
  let record := Record.ofJson scenario.contextType (.host 0) scenario.context
  let context := Value.object { id := 0, typeName := scenario.contextType }
  let locals : Locals :=
    if scenario.locals.isEmpty then []
    else Locals.child (Value.ofFields (.host 1) 0 scenario.locals) []
  let (root, tree) := Forest.insert {} (detector.hydrate context locals)
  let lifeCycle := LifeCycle.ofConfig root config
  return (reportsFrom lifeCycle 0 ({} :: scenario.steps) ({ record }, tree)).1

end ChangeWatch.Scenario
