import ChangeWatch.Detector.Mode
import ChangeWatch.Detector.Record
import ChangeWatch.Detector.Slot
import ChangeWatch.Expr.Evaluator

/-!
Detectors. A detector watches a list of expressions over a context that it is given later and may lose
again; without a context it remembers nothing.
-/
namespace ChangeWatch

/-- An expression to be watched, with its name and its group. -/
structure BindingRecord where
  source : Source
  binding : Label
  group : Label

/-- A watched expression: the value that was last reported, and the pipes it uses. -/
structure Binding (κ : Type) where
  id : Label
  group : Label
  evaluator : Evaluator
  place : Place
  evaluations : Nat := 0
  previous : Cached := .uninitialized
  slots : List (PipeSlot κ)

structure Detector (σ κ : Type) where
  name : String
  registry : Registry σ κ
  dispatcher : Dispatcher σ
  bindings : List (Binding κ)
  localNames : List String
  scope : Option Scope := none
  mode : Mode := .checkAlways

namespace Binding

def ofRecord (strategy : Strategy) (place : Place) (record : BindingRecord) : Binding κ where
  id := record.binding
  group := record.group
  evaluator := .make strategy record.source (.part 0 place)
  place := place
  slots := List.replicate record.source.slots {}

/-- Forgets the value and the pipes. -/
def clear (registry : Registry σ κ) (binding : Binding κ) : StateM σ (Binding κ) := do
  let slots ← PipeSlot.clearAll registry binding.slots
  return { binding with slots, previous := .uninitialized }

/-- Evaluates the expression with its own pipes. -/
def evaluate (host : Host σ) (registry : Registry σ κ) (scope : Scope) (binding : Binding κ) :
    StateM σ (Except EvalError Outcome × Binding κ) := fun state =>
  let setting : Setting σ (List (PipeSlot κ)) :=
    { host, scope, pipes := PipeSlot.host registry (.part 1 binding.place) }
  let (result, state, slots) := binding.evaluator.evaluate setting (.part 0 binding.place)
    binding.evaluations (state, binding.slots)
  ((result, { binding with slots, evaluations := binding.evaluations + 1 }), state)

end Binding

/-- A template for detectors. -/
structure Proto (σ κ : Type) where
  name : String
  registry : Registry σ κ
  strategy : Strategy

/-- A detector with a place of its own, without a context. -/
def Proto.instantiate (proto : Proto σ κ) (place : Place) (dispatcher : Dispatcher σ)
    (records : List BindingRecord) (localNames : List String) : Detector σ κ where
  name := proto.name
  registry := proto.registry
  dispatcher := dispatcher
  bindings := records.zipIdx.map fun (record, index) =>
    .ofRecord proto.strategy (.part index place) record
  localNames := localNames

namespace Detector

def isHydrated (detector : Detector σ κ) : Bool := detector.scope.isSome

/-- Gives a detector a context. What it remembers of another one stays. -/
def hydrate (context : Value) (locals : Locals) (detector : Detector σ κ) : Detector σ κ :=
  { detector with scope := some { context, locals } }

def clearAll (registry : Registry σ κ) : List (Binding κ) → StateM σ (List (Binding κ))
  | [] => return []
  | binding :: bindings => do
    let binding ← binding.clear registry
    let bindings ← clearAll registry bindings
    return binding :: bindings

/-- Takes the context away, with everything remembered. -/
def dehydrate (detector : Detector σ κ) : StateM σ (Detector σ κ) := do
  let bindings ← clearAll detector.registry detector.bindings
  return { detector with bindings, scope := none }

/-- The value last reported for the expression at a position. -/
def previous? (detector : Detector σ κ) (index : Nat) : Option Cached :=
  detector.bindings[index]?.map Binding.previous

/-- How a detector is shown to a developer. -/
def debug (detector : Detector σ κ) : String :=
  "ChangeDetector \x7b name: " ++ Text.quote detector.name ++
    ", mode: " ++ detector.mode.debug ++
    ", hydrated: " ++ (if detector.isHydrated then "true" else "false") ++
    ", bindings: " ++ toString detector.bindings.length ++ ", .. \x7d"

end Detector
end ChangeWatch
