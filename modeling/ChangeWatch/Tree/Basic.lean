import ChangeWatch.Detector.Check
import ChangeWatch.Forest.Surgery

/-!
Trees of detectors: a forest whose nodes are detectors, beside the state of the application that they
watch. Whatever fails for want of a node leaves everything as it was.
-/
namespace ChangeWatch

inductive DetectorError where
  | check (cause : CheckError)
  | forest (cause : ForestError)

namespace DetectorError

def message : DetectorError → String
  | check (.evaluation expression _ cause) => cause.message ++ " in [" ++ expression ++ "]"
  | check (.changedAfterChecked expression _ previous current) =>
    s!"Expression '{expression}' has changed after it was checked. " ++
      s!"Previous value: '{previous.display}'. Current value: '{current.display}'"
  | check (.dispatch group cause) => s!"dispatcher failed for group '{group.text}': {cause}"
  | forest cause => cause.message

/-- Whether a verification found a change. -/
def isStrictModeViolation : DetectorError → Bool
  | check (.changedAfterChecked _ _ _ _) => true
  | _ => false

/-- Whether the error stopped a pass. -/
def isPassError : DetectorError → Bool
  | check _ => true
  | forest _ => false

/-- The expression that the error is about. -/
def binding? : DetectorError → Option Label
  | check (.evaluation _ binding _) | check (.changedAfterChecked _ binding _ _) => some binding
  | _ => none

end DetectorError

abbrev Tree (σ κ : Type) := Forest (Detector σ κ)

/-- An operation on a tree that watches an application with state `σ`. An operation that fails may
have got some way. -/
abbrev TreeM (σ κ : Type) := ExceptT DetectorError (StateM (σ × Tree σ κ))

namespace TreeM

/-- A change of the tree alone, which either happens or is refused. -/
def restructure (change : Tree σ κ → Except ForestError (α × Tree σ κ)) : TreeM σ κ α :=
  fun (state, tree) =>
    match change tree with
    | .ok (value, tree) => (.ok value, (state, tree))
    | .error cause => (.error (.forest cause), (state, tree))

/-- A change of one detector, which may reach the application. -/
def onDetector (id : NodeId) (action : Detector σ κ → StateM σ (α × Detector σ κ)) :
    TreeM σ κ α := fun (state, tree) =>
  match tree.node id with
  | .error cause => (.error (.forest cause), (state, tree))
  | .ok node =>
    let ((value, detector), state) := action node.payload state
    (.ok value, (state, tree.modify id fun node => { node with payload := detector }))

end TreeM

namespace Tree

def insert (detector : Detector σ κ) : TreeM σ κ NodeId :=
  .restructure fun tree => .ok (Forest.insert tree detector)

def addChild (parent child : NodeId) : TreeM σ κ Unit :=
  .restructure fun tree => (Forest.addChild tree parent child).map fun tree => ((), tree)

def removeChild (parent child : NodeId) : TreeM σ κ Unit :=
  .restructure fun tree => (Forest.removeChild tree parent child).map fun tree => ((), tree)

def remove (id : NodeId) : TreeM σ κ Unit :=
  .restructure fun tree => (Forest.remove tree id).map fun tree => ((), tree)

/-- The parent of a node. -/
def parent (id : NodeId) : TreeM σ κ (Option NodeId) :=
  .restructure fun tree => (Forest.node tree id).map fun node => (node.parent, tree)

/-- The children of a node. -/
def children (id : NodeId) : TreeM σ κ (List NodeId) :=
  .restructure fun tree => (Forest.node tree id).map fun node => (node.children, tree)

def dehydrateAll : List (Detector σ κ) → StateM σ Unit
  | [] => return ()
  | detector :: detectors => do
    let _ ← detector.dehydrate
    dehydrateAll detectors

/-- Destroys a subtree. Its detectors lose their pipes in the order in which they are removed. -/
def destroy (id : NodeId) : TreeM σ κ Unit := do
  let removed ← TreeM.restructure fun tree => Forest.destroy tree id
  fun (state, tree) => (.ok (), ((dehydrateAll removed state).2, tree))

def mode (id : NodeId) : TreeM σ κ Mode :=
  .onDetector id fun detector => return (detector.mode, detector)

def setMode (id : NodeId) (mode : Mode) : TreeM σ κ Unit :=
  .onDetector id fun detector => return ((), { detector with mode })

def hydrate (id : NodeId) (context : Value) (locals : Locals) : TreeM σ κ Unit :=
  .onDetector id fun detector => return ((), detector.hydrate context locals)

def dehydrate (id : NodeId) : TreeM σ κ Unit :=
  .onDetector id fun detector => return ((), ← detector.dehydrate)

def isHydrated (id : NodeId) : TreeM σ κ Bool :=
  .onDetector id fun detector => return (detector.isHydrated, detector)

/-- Gives all detectors up, by index: their pipes are destroyed. -/
def release (tree : Tree σ κ) : StateM σ Unit := dehydrateAll (Forest.payloads tree)

end Tree
end ChangeWatch
