import ChangeWatch.Detector.Label
import ChangeWatch.Value.Display
import ChangeWatch.Value.Equality

/-!
What a detector remembers of a watched expression and what it reports. A value that was never set is
kept apart from every value, null included.
-/
namespace ChangeWatch

/-- The remembered value of a watched expression. -/
inductive Cached where
  | uninitialized
  | set (value : Value)
deriving Inhabited

namespace Cached

def value? : Cached → Option Value
  | uninitialized => none
  | set value => some value

/-- Whether a value is news: nothing was remembered, or something not identical. -/
def differsFrom (cached : Cached) (current : Value) : Bool :=
  match cached with
  | uninitialized => true
  | set previous => !previous.identical current

def display : Cached → String
  | uninitialized => "<uninitialized>"
  | set value => value.display

/-- Equality by the equality of values. -/
def equal : Cached → Cached → Bool
  | uninitialized, uninitialized => true
  | set a, set b => a.equal b
  | _, _ => false

end Cached

/-- A watched expression changed. -/
structure ChangeRecord where
  binding : Label
  previous : Cached
  current : Value

def ChangeRecord.display (record : ChangeRecord) : String :=
  record.binding.text ++ "=" ++ record.current.display

/-- The changes of one group, in the order in which their expressions were declared. -/
structure Notification where
  group : Label
  changes : List ChangeRecord

/-- Notifications in the order of their arrival. -/
abbrev ChangeLog := List Notification

/-- The texts of all logged changes. -/
def ChangeLog.values (log : ChangeLog) : List String :=
  (log.flatMap Notification.changes).map ChangeRecord.display

/-- Receives the changes of a group; a dispatcher may refuse them with a reason. -/
abbrev Dispatcher (σ : Type) := Label → List ChangeRecord → StateM σ (Except String Unit)

/-- Takes everything and does nothing. -/
def Dispatcher.silent : Dispatcher σ := fun _ _ => return .ok ()

end ChangeWatch
