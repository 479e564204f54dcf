/-!
Whether a detector takes part in detection.
-/
namespace ChangeWatch

inductive Mode where
  | checkAlways
  | checkOnce
  | checked
  | detached
deriving DecidableEq, Repr

namespace Mode

/-- A detector that is skipped is skipped with everything below it. -/
def isSkipped : Mode → Bool
  | checked | detached => true
  | checkAlways | checkOnce => false

def label : Mode → String
  | checkAlways => "check_always"
  | checkOnce => "check_once"
  | checked => "checked"
  | detached => "detached"

def ofLabel? (label : String) : Option Mode :=
  [checkAlways, checkOnce, checked, detached].find? fun mode => mode.label == label

/-- The mode after a completed visit: a detector to be checked once has been. -/
def afterVisit : Mode → Mode
  | checkOnce => checked
  | mode => mode

/-- The name of a mode as it is shown to a developer. -/
def debug : Mode → String
  | checkAlways => "CheckAlways"
  | checkOnce => "CheckOnce"
  | checked => "Checked"
  | detached => "Detached"

end Mode
end ChangeWatch
