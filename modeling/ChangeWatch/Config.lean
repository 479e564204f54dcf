import ChangeWatch.Json.Fields
import ChangeWatch.Json.Reader
import ChangeWatch.Json.Writer

/-!
The configuration of an engine: how expressions are evaluated, and whether every detection is
verified by a second pass.
-/
namespace ChangeWatch

inductive Strategy where
  | interpreted
  | compiled
deriving DecidableEq, Repr

namespace Strategy

def label : Strategy → String
  | .interpreted => "interpreted"
  | .compiled => "compiled"

def ofLabel? (label : String) : Option Strategy :=
  if label = "interpreted" then some .interpreted
  else if label = "compiled" then some .compiled
  else none

/-- A strategy by its label, or as an object with its label as the only field and null in it. -/
def ofDraft? : Json.Draft → Option Strategy
  | .string label => label.bind ofLabel?
  | .object [(label, .null)] => label.bind ofLabel?
  | _ => none

end Strategy

structure Config where
  strategy : Strategy := .interpreted
  enforceNoNewChanges : Bool := false
deriving DecidableEq, Repr

namespace Config

/-- Missing fields have their defaults and fields of other names are skipped. -/
def ofDraft? (draft : Json.Draft) : Option Config := do
  let fields ← draft.declared? .skipped ["strategy", "enforce_no_new_changes"]
  let strategy ← Json.field fields "strategy" Strategy.ofDraft? .interpreted
  let enforceNoNewChanges ← Json.field fields "enforce_no_new_changes" Json.Draft.bool? false
  return { strategy, enforceNoNewChanges }

def ofText? (text : String) : Option Config := (Json.Draft.ofText? text).bind ofDraft?

def toJson (config : Config) : Json :=
  .object [("strategy", .string config.strategy.label),
    ("enforce_no_new_changes", .bool config.enforceNoNewChanges)]

/-- The configuration with what a caller asks for on top: another strategy, or verification. -/
def override (strategy : Option Strategy) (strict : Bool) (config : Config) : Config where
  strategy := strategy.getD config.strategy
  enforceNoNewChanges := config.enforceNoNewChanges || strict

end Config
end ChangeWatch
