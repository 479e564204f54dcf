import ChangeWatch.Tree.Basic

/-!
Passes over a tree. A pass visits a node, then its children in order, and leaves out whatever lies
below a node that is skipped. The first error ends the pass.
-/
namespace ChangeWatch.Tree

/-- Visits nodes one after the other. -/
def visitEach (visit : NodeId → TreeM σ κ Unit) : List NodeId → TreeM σ κ Unit
  | [] => return ()
  | id :: ids => do
    visit id
    visitEach visit ids

/-- Checks the expressions of one detector. -/
def checkNode (host : Host σ) (purpose : Purpose) (id : NodeId) : TreeM σ κ Unit := do
  match ← TreeM.onDetector id fun detector => detector.check host purpose with
  | .ok _ => return ()
  | .error cause => throw (.check cause)

/-- Visits a node and what lies below it, at most the given number of levels. -/
def visit (host : Host σ) (purpose : Purpose) : Nat → NodeId → TreeM σ κ Unit
  | 0, _ => return ()
  | depth + 1, id => do
    if (← mode id).isSkipped then return ()
    else
      checkNode host purpose id
      visitEach (visit host purpose depth) (← children id)
      setMode id (← mode id).afterVisit

/-- One pass from a node downwards. No path is longer than the number of cells. -/
def pass (host : Host σ) (purpose : Purpose) (id : NodeId) : TreeM σ κ Unit := fun (state, tree) =>
  visit host purpose (tree.cells.length + 1) id (state, tree)

def detectChanges (host : Host σ) (id : NodeId) : TreeM σ κ Unit := pass host .detect id

def checkNoChanges (host : Host σ) (id : NodeId) : TreeM σ κ Unit := pass host .verify id

/-- Walks from a node to its root and lets checked detectors be checked once more. A detached
detector ends the walk. -/
def markUpward : Nat → Option NodeId → TreeM σ κ Unit
  | _, none => return ()
  | 0, some _ => return ()
  | steps + 1, some id => do
    let current ← mode id
    if current = .detached then return ()
    else
      if current = .checked then setMode id .checkOnce
      markUpward steps (← parent id)

/-- Lets the next pass from the root reach a node. -/
def markPathToRootAsCheckOnce (id : NodeId) : TreeM σ κ Unit := fun (state, tree) =>
  markUpward (tree.cells.length + 1) (some id) (state, tree)

end Tree

/-- Drives passes over the tree below a root. -/
structure LifeCycle where
  root : NodeId
  enforceNoNewChanges : Bool
deriving DecidableEq, Repr

namespace LifeCycle

def ofConfig (root : NodeId) (config : Config) : LifeCycle :=
  { root, enforceNoNewChanges := config.enforceNoNewChanges }

def registerWith (root : NodeId) (lifeCycle : LifeCycle) : LifeCycle := { lifeCycle with root }

/-- A detection, and a verification behind it where that is asked for. -/
def tick (host : Host σ) (lifeCycle : LifeCycle) : TreeM σ κ Unit := do
  Tree.detectChanges host lifeCycle.root
  if lifeCycle.enforceNoNewChanges then Tree.checkNoChanges host lifeCycle.root

end LifeCycle

/-- How a component lets its detector take part in passes. -/
inductive Propagation where
  | once
  | fromRoot
  | never
  | always
deriving DecidableEq, Repr

def Propagation.apply (propagation : Propagation) (id : NodeId) : TreeM σ κ Unit :=
  match propagation with
  | .once => Tree.setMode id .checkOnce
  | .fromRoot => Tree.markPathToRootAsCheckOnce id
  | .never => Tree.setMode id .detached
  | .always => Tree.setMode id .checkAlways

end ChangeWatch
