import ChangeWatch.Proofs.Forest.Links
import ChangeWatch.Proofs.Stateful
import ChangeWatch.Tree.Pass

/-!
Histories of a tree: detectors are made, linked, unlinked and destroyed, get and lose contexts, and are
checked, in any order and with any handles, while the application changes at will. What a step
keeps, a history keeps.
-/
namespace ChangeWatch

open Stateful (Along)

/-- What may be done with a tree, and with the application that it watches. -/
inductive Operation (σ κ : Type) where
  | mutate (change : σ → σ)
  | insert (proto : Proto σ κ) (place : Place) (dispatcher : Dispatcher σ)
      (records : List BindingRecord) (localNames : List String)
  | addChild (parent child : NodeId)
  | removeChild (parent child : NodeId)
  | remove (id : NodeId)
  | destroy (id : NodeId)
  | hydrate (id : NodeId) (context : Value) (locals : Locals)
  | dehydrate (id : NodeId)
  | setMode (id : NodeId) (mode : Mode)
  | markPathToRoot (id : NodeId)
  | detect (id : NodeId)
  | verify (id : NodeId)

/-- An operation that is refused or that fails leaves what it has done so far. -/
def Operation.run (host : Host σ) : Operation σ κ → TreeM σ κ Unit
  | mutate change => fun (state, tree) => (.ok (), (change state, tree))
  | insert proto place dispatcher records localNames => do
    let _ ← Tree.insert (proto.instantiate place dispatcher records localNames)
  | addChild parent child => Tree.addChild parent child
  | removeChild parent child => Tree.removeChild parent child
  | remove id => Tree.remove id
  | destroy id => Tree.destroy id
  | hydrate id context locals => Tree.hydrate id context locals
  | dehydrate id => Tree.dehydrate id
  | setMode id mode => Tree.setMode id mode
  | markPathToRoot id => Tree.markPathToRootAsCheckOnce id
  | detect id => Tree.detectChanges host id
  | verify id => Tree.checkNoChanges host id

namespace Tree

/-- What a history leaves of an application and a tree. -/
def after (host : Host σ) (operations : List (Operation σ κ)) (world : σ × Tree σ κ) :
    σ × Tree σ κ :=
  operations.foldl (fun world operation => (operation.run host world).2) world

/-- What every operation of a history keeps, the history keeps. -/
theorem after_induction {host : Host σ} {P : σ × Tree σ κ → Prop}
    {operations : List (Operation σ κ)} {world : σ × Tree σ κ} (start : P world)
    (step : ∀ operation ∈ operations, ∀ world, P world → P (operation.run host world).2) :
    P (after host operations world) := by
  induction operations generalizing world with
  | nil => exact start
  | cons operation operations ih =>
    obtain ⟨first, others⟩ := List.forall_mem_cons.mp step
    exact ih (first world start) others

end Tree

namespace Tree

/-- Asking for the mode changes nothing. -/
theorem mode_world (id : NodeId) (world : σ × Tree σ κ) : (mode id world).2 = world := by
  obtain ⟨state, tree⟩ := world
  cases found : tree.node? id with
  | none => rw [mode, TreeM.onDetector_of_none found]
  | some node =>
    rw [mode, TreeM.onDetector_of_some found]
    refine Prod.ext rfl ?_
    obtain ⟨cell, looked, generation, full⟩ := Forest.node?_eq_some.mp found
    have same : tree.cells.modify id.index (fun cell =>
        if cell.generation = id.generation then
          { cell with node := cell.node.map fun other => { other with payload := node.payload } }
        else cell) = tree.cells := by
      apply List.ext_getElem?
      intro index
      rw [List.getElem?_modify]
      by_cases here : id.index = index
      · subst here
        obtain ⟨cellGeneration, held⟩ := cell
        cases full
        simp [looked]
      · simp [here]
    exact congrArg (fun cells => ({ tree with cells } : Tree σ κ)) same

theorem children_world (id : NodeId) (world : σ × Tree σ κ) : (children id world).2 = world := by
  obtain ⟨state, tree⟩ := world
  simp only [children, TreeM.restructure]
  cases Forest.node tree id <;> rfl

theorem parent_world (id : NodeId) (world : σ × Tree σ κ) : (parent id world).2 = world := by
  obtain ⟨state, tree⟩ := world
  simp only [parent, TreeM.restructure]
  cases Forest.node tree id <;> rfl

section Found

variable {id : NodeId} {tree : Tree σ κ} {node : Node (Detector σ κ)}

theorem mode_of_some (found : tree.node? id = some node) (state : σ) :
    mode id (state, tree) = (.ok node.payload.mode, (state, tree)) := by
  refine Prod.ext ?_ (mode_world id (state, tree))
  rw [mode, TreeM.onDetector_of_some found]
  rfl

theorem children_of_some (found : tree.node? id = some node) (state : σ) :
    children id (state, tree) = (.ok node.children, (state, tree)) := by
  simp only [children, TreeM.restructure, Forest.node_eq_ok.mpr found]
  rfl

theorem parent_of_some (found : tree.node? id = some node) (state : σ) :
    parent id (state, tree) = (.ok node.parent, (state, tree)) := by
  simp only [parent, TreeM.restructure, Forest.node_eq_ok.mpr found]
  rfl

theorem setMode_of_some (found : tree.node? id = some node) (mode : Mode) (state : σ) :
    setMode id mode (state, tree) = (.ok (), (state, Forest.modify tree id fun other =>
      { other with payload := { node.payload with mode } })) := by
  rw [setMode, TreeM.onDetector_of_some found]
  rfl

/-- The end of the visit of a node. -/
theorem mark_of_some (found : tree.node? id = some node) (state : σ) :
    (do setMode id (← mode id).afterVisit : TreeM σ κ Unit) (state, tree) =
      (.ok (), (state, Forest.modify tree id fun other =>
        { other with payload := { node.payload with mode := node.payload.mode.afterVisit } })) :=
  (Stateful.bind_of_ok (mode_of_some found state)).trans (setMode_of_some found _ state)

end Found

theorem pass_of_none {id : NodeId} {tree : Tree σ κ} (absent : tree.node? id = none) (state : σ)
    (host : Host σ) (purpose : Purpose) :
    pass host purpose id (state, tree) = (.error (.forest (.unknown id)), (state, tree)) :=
  Stateful.bind_of_error (TreeM.onDetector_of_none absent)

variable {R : σ × Tree σ κ → σ × Tree σ κ → Prop} [Std.Refl R]

theorem mode_along (id : NodeId) : Along R (mode (σ := σ) (κ := κ) id) := .of_same (mode_world id)

theorem children_along (id : NodeId) : Along R (children (σ := σ) (κ := κ) id) :=
  .of_same (children_world id)

theorem parent_along (id : NodeId) : Along R (parent (σ := σ) (κ := κ) id) :=
  .of_same (parent_world id)

/-- An operation on a detector stays within a relation when it does so where there is such a detector. -/
theorem onDetector_along (id : NodeId) {action : Detector σ κ → StateM σ (α × Detector σ κ)}
    (acts : ∀ state tree node, Forest.node? tree id = some node →
      R (state, tree) ((action node.payload state).2, Forest.modify tree id fun node' =>
        { node' with payload := (action node.payload state).1.2 })) :
    Along R (TreeM.onDetector id action) := by
  rintro ⟨state, tree⟩
  cases found : Forest.node? tree id with
  | none =>
    rw [TreeM.onDetector_of_none found]
    exact Std.Refl.refl (state, tree)
  | some node =>
    rw [TreeM.onDetector_of_some found]
    exact acts state tree node found

variable [Trans R R R]

theorem checkNode_along {host : Host σ} {purpose : Purpose} {id : NodeId}
    (check : Along R (TreeM.onDetector id fun detector : Detector σ κ => detector.check host purpose)) :
    Along R (checkNode host purpose id) := by
  refine .bind check fun result => ?_
  cases result with
  | ok count => exact .pure ()
  | error cause => exact .throw _

theorem visitEach_along {visit : NodeId → TreeM σ κ Unit} (each : ∀ id, Along R (visit id))
    (ids : List NodeId) : Along R (visitEach visit ids) := by
  induction ids with
  | nil => exact .pure ()
  | cons id ids ih => exact .bind (each id) fun _ => ih

/-- The end of a visit stays within a relation when the changes of modes do. -/
theorem mark_along {id : NodeId} (setMode : ∀ mode, Along R (setMode (σ := σ) (κ := κ) id mode)) :
    Along R (do Tree.setMode id (← mode id).afterVisit : TreeM σ κ Unit) :=
  .bind (mode_along id) fun current => setMode current.afterVisit

/-- A pass stays within a relation when the checks of detectors and the ends of visits do. -/
theorem visit_along {host : Host σ} {purpose : Purpose}
    (check : ∀ id, Along R (checkNode (κ := κ) host purpose id))
    (mark : ∀ id, Along R (do setMode id (← mode id).afterVisit : TreeM σ κ Unit)) (depth : Nat)
    (id : NodeId) : Along R (visit (κ := κ) host purpose depth id) := by
  induction depth generalizing id with
  | zero => exact .pure ()
  | succ depth ih =>
    refine .bind (mode_along id) fun current => ?_
    split
    · exact .pure ()
    · refine .bind (check id) fun _ => .bind (children_along id) fun below => ?_
      exact .bind (visitEach_along ih below) fun _ => mark id

theorem markUpward_along (setMode : ∀ id mode, Along R (setMode (σ := σ) (κ := κ) id mode))
    (steps : Nat) (id : Option NodeId) : Along R (markUpward (σ := σ) (κ := κ) steps id) := by
  induction steps generalizing id with
  | zero => cases id <;> exact .pure ()
  | succ steps ih =>
    cases id with
    | none => exact .pure ()
    | some id =>
      refine .bind (mode_along id) fun current => ?_
      split
      · exact .pure ()
      · split
        · exact .bind (setMode id .checkOnce) fun _ => .bind (parent_along id) fun above => ih above
        · exact .bind (parent_along id) fun above => ih above

end Tree
end ChangeWatch
