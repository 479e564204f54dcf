import ChangeWatch.Detector.Basic

/-!
Checks the expressions of a detector in their order. Changes of neighbouring expressions of one group
are collected and handed to the dispatcher together, before the first expression of another group is
evaluated. A verification writes nothing down and fails at the first change.
-/
namespace ChangeWatch

/-- Why a check stopped. -/
inductive CheckError where
  | evaluation (expression : String) (binding : Label) (cause : EvalError)
  | changedAfterChecked (expression : String) (binding : Label) (previous : Cached)
      (current : Value)
  | dispatch (group : Label) (cause : String)

/-- Whether a check reports changes or admits none. -/
inductive Purpose where
  | detect
  | verify
deriving DecidableEq, Repr

/-- Changes that have not been handed over yet; there is a group exactly when there are changes. -/
structure Buffer where
  group : Option Label := none
  records : List ChangeRecord := []

namespace Buffer

/-- Adds a change; the first one names the group. -/
def push (buffer : Buffer) (group : Label) (record : ChangeRecord) : Buffer where
  group := some (buffer.group.getD group)
  records := buffer.records ++ [record]

/-- Hands the collected changes over. -/
def flush (dispatcher : Dispatcher σ) (buffer : Buffer) : StateM σ (Except CheckError Unit) := do
  match buffer.group with
  | none => return .ok ()
  | some group =>
    match ← dispatcher group buffer.records with
    | .ok () => return .ok ()
    | .error cause => return .error (.dispatch group cause)

/-- Hands the collected changes over if the next expression belongs to another group. -/
def flushFor (dispatcher : Dispatcher σ) (next : Label) (buffer : Buffer) :
    StateM σ (Except CheckError Buffer) := do
  match buffer.group with
  | none => return .ok buffer
  | some group =>
    if group = next then return .ok buffer
    else
      match ← buffer.flush dispatcher with
      | .ok () => return .ok {}
      | .error cause => return .error cause

end Buffer

/-- What the evaluation of one expression comes to. -/
inductive Finding where
  | failed (error : CheckError)
  | same
  | changed (record : ChangeRecord)

namespace Binding

/-- Compares the outcome of an evaluation with the remembered value, and remembers a change unless
this is a verification. -/
def judge (purpose : Purpose) (result : Except EvalError Outcome) (binding : Binding κ) :
    Finding × Binding κ :=
  let expression := binding.evaluator.source.describe
  match result with
  | .error cause => (.failed (.evaluation expression binding.id cause), binding)
  | .ok .noChange => (.same, binding)
  | .ok (.value current) =>
    if !binding.previous.differsFrom current then (.same, binding)
    else match purpose with
      | .verify =>
        (.failed (.changedAfterChecked expression binding.id binding.previous current), binding)
      | .detect =>
        (.changed { binding := binding.id, previous := binding.previous, current },
          { binding with previous := .set current })

/-- Evaluates the expression and judges the outcome. -/
def check (host : Host σ) (registry : Registry σ κ) (scope : Scope) (purpose : Purpose)
    (binding : Binding κ) : StateM σ (Finding × Binding κ) := do
  let (result, binding) ← binding.evaluate host registry scope
  return binding.judge purpose result

end Binding

namespace Detector

/-- Checks the expressions from some point on, with the changes collected so far, and counts the
changes. A failure leaves the later expressions as they are. -/
def checkFrom (host : Host σ) (detector : Detector σ κ) (scope : Scope) (purpose : Purpose)
    (buffer : Buffer) (count : Nat) :
    List (Binding κ) → StateM σ (Except CheckError Nat × List (Binding κ))
  | [] => do
    match ← buffer.flush detector.dispatcher with
    | .ok () => return (.ok count, [])
    | .error error => return (.error error, [])
  | binding :: bindings => do
    match ← buffer.flushFor detector.dispatcher binding.group with
    | .error error => return (.error error, binding :: bindings)
    | .ok buffer =>
      let (finding, binding) ← binding.check host detector.registry scope purpose
      match finding with
      | .failed error => return (.error error, binding :: bindings)
      | .same =>
        let (result, bindings) ← checkFrom host detector scope purpose buffer count bindings
        return (result, binding :: bindings)
      | .changed record =>
        let (result, bindings) ← checkFrom host detector scope purpose
          (buffer.push binding.group record) (count + 1) bindings
        return (result, binding :: bindings)

/-- Checks all expressions of a detector and counts the changes. Without a context there is nothing
to check. -/
def check (host : Host σ) (purpose : Purpose) (detector : Detector σ κ) :
    StateM σ (Except CheckError Nat × Detector σ κ) := do
  match detector.scope with
  | none => return (.ok 0, detector)
  | some scope =>
    let (result, bindings) ← checkFrom host detector scope purpose {} 0 detector.bindings
    return (result, { detector with bindings })

end Detector
end ChangeWatch
