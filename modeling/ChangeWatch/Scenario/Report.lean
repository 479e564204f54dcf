import ChangeWatch.Json.Writer

/-!
What the steps of a scenario report, as a document and as text.
-/
namespace ChangeWatch

/-- A change; the previous value is missing when the expression had none yet. -/
structure ChangeReport where
  binding : String
  previous : Option Json
  current : Json

structure GroupReport where
  group : String
  changes : List ChangeReport

structure StepReport where
  step : Nat
  groups : List GroupReport
  error : Option String := none

def ChangeReport.toJson (report : ChangeReport) : Json :=
  .object [("binding", .string report.binding), ("previous", report.previous.getD .null),
    ("current", report.current)]

def GroupReport.toJson (report : GroupReport) : Json :=
  .object [("group", .string report.group), ("changes", .array (report.changes.map (·.toJson)))]

namespace StepReport

/-- The document of a report; the error is left out when there is none. -/
def toJson (report : StepReport) : Json :=
  .object <| [("step", .ofNat report.step), ("groups", .array (report.groups.map (·.toJson)))] ++
    match report.error with
    | some error => [("error", .string error)]
    | none => []

end StepReport

def ChangeReport.lines (report : ChangeReport) : List String :=
  let previous := match report.previous with
    | some json => json.compact
    | none => "<uninitialized>"
  [s!"    {report.binding}: {previous} -> {report.current.compact}"]

def GroupReport.lines (report : GroupReport) : List String :=
  s!"  group {report.group}" :: report.changes.flatMap ChangeReport.lines

def StepReport.lines (report : StepReport) : List String :=
  [s!"step {report.step}"] ++
    (if report.groups.isEmpty && report.error.isNone then ["  (no changes)"] else []) ++
    report.groups.flatMap GroupReport.lines ++
    match report.error with
    | some error => [s!"  error: {error}"]
    | none => []

/-- Reports as an indented listing. -/
def textReport (reports : List StepReport) : String :=
  String.join ((reports.flatMap StepReport.lines).map (· ++ "\n"))

/-- Reports as one document. -/
def jsonReport (reports : List StepReport) : Json := .array (reports.map (·.toJson))

end ChangeWatch
