import ChangeWatch.Proofs.Forest.Reached
import ChangeWatch.Proofs.Forest.Uprooting
import ChangeWatch.Proofs.Marks

/-!
Changes of a tree step by step: nodes are looked up one after the other, what is found is changed at
once, and a look-up that fails leaves what has been changed before it. In a tree that is a forest only
the first look-ups can fail, before anything has changed. So a change either happens as a whole or is
refused, and a refused one leaves the tree as it was.
-/
namespace ChangeWatch

/-- What may be asked of the links, contexts and modes of a tree. -/
inductive Edit where
  | addChild (parent child : NodeId)
  | removeChild (parent child : NodeId)
  | remove (id : NodeId)
  | destroy (id : NodeId)
  | setMode (id : NodeId) (mode : Mode)
  | hydrate (id : NodeId) (context : Value) (locals : Locals)
  | dehydrate (id : NodeId)
  | markPathToRoot (id : NodeId)

def Edit.operation : Edit → Operation σ κ
  | addChild parent child => .addChild parent child
  | removeChild parent child => .removeChild parent child
  | remove id => .remove id
  | destroy id => .destroy id
  | setMode id mode => .setMode id mode
  | hydrate id context locals => .hydrate id context locals
  | dehydrate id => .dehydrate id
  | markPathToRoot id => .markPathToRoot id

namespace Stepwise

def node (id : NodeId) : TreeM σ κ (Node (Detector σ κ)) :=
  .restructure fun tree => (Forest.node tree id).map fun node => (node, tree)

/-- Looks a node up and changes it. -/
def update (id : NodeId) (f : Node (Detector σ κ) → Node (Detector σ κ)) : TreeM σ κ Unit := do
  let _ ← node id
  fun (state, tree) => (.ok (), (state, Forest.modify tree id f))

/-- Climbs from the parent to its root, for as many rounds as there are cells, and for one and some
more. -/
def climb (more : Nat) (parent child : NodeId) : TreeM σ κ Unit :=
  .restructure fun tree =>
    (Forest.refuteAncestor tree (.wouldCreateCycle parent child) child
      (tree.cells.length + 1 + more) (some parent)).map fun _ => ((), tree)

def addChild (more : Nat) (parent child : NodeId) : TreeM σ κ Unit := do
  match (← node child).parent with
  | some current => throw (.forest (.alreadyAttached current child))
  | none =>
    climb more parent child
    update parent fun node => { node with children := node.children ++ [child] }
    update child fun node => { node with parent := some parent }

def removeChild (parent child : NodeId) : TreeM σ κ Unit := do
  let _ ← node child
  if (← node parent).children.contains child then
    update parent fun node => { node with children := node.children.erase child }
    update child fun node => { node with parent := none }
  else throw (.forest (.notAChild parent child))

def remove (id : NodeId) : TreeM σ κ Unit := do
  match (← node id).parent with
  | some parent => removeChild parent id
  | none => return ()

/-- Empties the cells of pending nodes, the last one first, and then those of their children. A
detector loses its pipes as soon as its cell is empty. -/
def uproot : Nat → List NodeId → TreeM σ κ Unit
  | 0, _ => return ()
  | _ + 1, [] => return ()
  | rounds + 1, id :: pending => fun (state, tree) =>
    match tree.cells[id.index]? with
    | none => uproot rounds pending (state, tree)
    | some cell =>
      match cell.node with
      | none => uproot rounds pending (state, tree)
      | some node =>
        let (_, state) := node.payload.dehydrate state
        uproot rounds (node.children.reverse ++ pending) (state, tree.vacate id.index cell)

/-- Destroys a subtree, for as many rounds as it has nodes at most, and for some more. -/
def destroy (more : Nat) (id : NodeId) : TreeM σ κ Unit := do
  remove id
  fun (state, tree) => uproot (Forest.links tree + 1 + more) [id] (state, tree)

def markPathToRoot (more : Nat) (id : NodeId) : TreeM σ κ Unit := fun (state, tree) =>
  Tree.markUpward (tree.cells.length + 1 + more) (some id) (state, tree)

end Stepwise

/-- An edit as its steps, where loops may go on for some rounds more than their bounds say. -/
def Edit.steps (more : Nat) : Edit → TreeM σ κ Unit
  | addChild parent child => Stepwise.addChild more parent child
  | removeChild parent child => Stepwise.removeChild parent child
  | remove id => Stepwise.remove id
  | destroy id => Stepwise.destroy more id
  | setMode id mode => Tree.setMode id mode
  | hydrate id context locals => Tree.hydrate id context locals
  | dehydrate id => Tree.dehydrate id
  | markPathToRoot id => Stepwise.markPathToRoot more id

open Forest (Linked)
open Stateful (bind_of_ok bind_of_error)

namespace Stepwise

variable {id parent child : NodeId} {tree : Tree σ κ} {state : σ}

section Steps

variable {found : Node (Detector σ κ)}

theorem node_of_some (present : tree.node? id = some found) :
    node id (state, tree) = (.ok found, (state, tree)) := by
  simp only [node, TreeM.restructure, Forest.node_eq_ok.mpr present]
  rfl

theorem node_of_none (absent : tree.node? id = none) :
    node id (state, tree) = (.error (.forest (.unknown id)), (state, tree)) := by
  simp only [node, TreeM.restructure, Forest.node, absent]
  rfl

theorem update_of_some (present : tree.node? id = some found)
    (f : Node (Detector σ κ) → Node (Detector σ κ)) :
    update id f (state, tree) = (.ok (), (state, Forest.modify tree id f)) :=
  bind_of_ok (node_of_some present)

/-- Two nodes that are there can be changed one after the other. -/
theorem updates (here : tree.contains id = true) {other : NodeId}
    (there : tree.contains other = true) (f g : Node (Detector σ κ) → Node (Detector σ κ)) :
    (do update id f; update other g : TreeM σ κ Unit) (state, tree) =
      (.ok (), (state, (Forest.modify tree id f).modify other g)) := by
  obtain ⟨first, found⟩ := Forest.contains_iff.mp here
  rw [← Forest.contains_modify tree id f] at there
  obtain ⟨second, found'⟩ := Forest.contains_iff.mp there
  exact (bind_of_ok (update_of_some found f)).trans (update_of_some found' g)

end Steps

section Links

variable (linked : Linked tree [])
include linked

theorem addChild_eq (more : Nat) (parent child : NodeId) (state : σ) :
    addChild more parent child (state, tree) = Tree.addChild parent child (state, tree) := by
  have refused {cause : ForestError} (refused : Forest.addChild tree parent child = .error cause) :
      Tree.addChild parent child (state, tree) = (.error (.forest cause), (state, tree)) :=
    TreeM.restructure_of_error (congrArg (Except.map fun tree => ((), tree)) refused) state
  cases found : tree.node? child with
  | none =>
    rw [addChild, bind_of_error (node_of_none found)]
    exact (refused (by simp only [Forest.addChild, Forest.node, found]; rfl)).symm
  | some node =>
    rw [addChild, bind_of_ok (node_of_some found)]
    cases root : node.parent with
    | some current =>
      refine (refused ?_).symm
      simp only [Forest.addChild, Forest.node_eq_ok.mpr found, bind, Except.bind, root]
      rfl
    | none =>
      have added : Forest.addChild tree parent child = _ := Forest.addChild_of_root found root
      have rounds := linked.refuteAncestor_rounds (.wouldCreateCycle parent child) parent child more
      cases climbed : Forest.refuteAncestor tree (.wouldCreateCycle parent child) child
          (tree.cells.length + 1) (some parent) with
      | error cause =>
        rw [climbed] at rounds added
        have stopped : climb more parent child (state, tree) = _ :=
          TreeM.restructure_of_error (congrArg (Except.map fun _ => ((), tree)) rounds) state
        exact (bind_of_error stopped).trans (refused added).symm
      | ok done =>
        rw [climbed] at rounds added
        have arrived : climb more parent child (state, tree) = _ :=
          TreeM.restructure_of_ok (congrArg (Except.map fun _ => ((), tree)) rounds) state
        obtain ⟨-, there, here, -⟩ := (Forest.addChild_eq_ok linked parent child).mp added
        refine (bind_of_ok arrived).trans ((updates there here _ _).trans ?_)
        exact (TreeM.restructure_of_ok (congrArg (Except.map fun tree => ((), tree)) added) state).symm

omit linked in
theorem removeChild_eq (parent child : NodeId) (state : σ) (tree : Tree σ κ) :
    removeChild parent child (state, tree) = Tree.removeChild parent child (state, tree) := by
  simp only [Tree.removeChild, TreeM.restructure, Forest.removeChild]
  cases found : tree.node? child with
  | none =>
    rw [removeChild, bind_of_error (node_of_none found)]
    simp only [Forest.node, found]
    rfl
  | some lower =>
    rw [removeChild, bind_of_ok (node_of_some found), Forest.node_eq_ok.mpr found]
    cases present : tree.node? parent with
    | none =>
      rw [bind_of_error (node_of_none present)]
      simp only [Forest.node, present]
      rfl
    | some upper =>
      rw [bind_of_ok (node_of_some present), Forest.node_eq_ok.mpr present]
      simp only [bind, Except.bind]
      split
      · exact updates (Forest.contains_iff.mpr ⟨upper, present⟩)
          (Forest.contains_iff.mpr ⟨lower, found⟩) _ _
      · rfl

omit linked in
theorem remove_eq (id : NodeId) (state : σ) (tree : Tree σ κ) :
    remove id (state, tree) = Tree.remove id (state, tree) := by
  simp only [Tree.remove, TreeM.restructure, Forest.remove]
  cases found : tree.node? id with
  | none =>
    rw [remove, bind_of_error (node_of_none found)]
    simp only [Forest.node, found]
    rfl
  | some node =>
    rw [remove, bind_of_ok (node_of_some found), Forest.node_eq_ok.mpr found]
    simp only [bind, Except.bind]
    cases node.parent with
    | some parent => exact removeChild_eq parent id state tree
    | none => rfl

omit linked in
/-- Detectors lose their pipes in the order in which their cells are emptied. -/
theorem uproot_eq (rounds : Nat) (pending : List NodeId) (state : σ) (tree : Tree σ κ) :
    uproot rounds pending (state, tree) =
      (.ok (), ((Tree.dehydrateAll (Forest.uproot rounds pending tree).1 state).2,
        (Forest.uproot rounds pending tree).2)) := by
  induction rounds generalizing pending state tree with
  | zero => rfl
  | succ rounds ih =>
    cases pending with
    | nil => rfl
    | cons id pending =>
      unfold uproot Forest.uproot
      dsimp only
      cases tree.cells[id.index]? with
      | none => exact ih pending state tree
      | some cell =>
        dsimp only
        cases cell.node with
        | none => exact ih pending state tree
        | some node => exact ih _ _ _

theorem destroy_eq (more : Nat) (id : NodeId) (state : σ) :
    destroy more id (state, tree) = Tree.destroy id (state, tree) := by
  have first := remove_eq id state tree
  cases removed : Forest.remove tree id with
  | error cause =>
    rw [Tree.remove, TreeM.restructure_of_error (congrArg (Except.map fun tree => ((), tree)) removed)]
      at first
    have refused : Forest.destroy tree id = .error cause := by
      rw [Forest.destroy, removed]
      rfl
    rw [destroy, bind_of_error first, Tree.destroy,
      bind_of_error (TreeM.restructure_of_error refused state)]
  | ok between =>
    obtain ⟨gone, payloads, last, -, destroyed, ran, -⟩ := linked.destroy_course removed
    rw [Tree.remove, TreeM.restructure_of_ok (congrArg (Except.map fun tree => ((), tree)) removed)]
      at first
    rw [destroy, bind_of_ok first, Tree.destroy,
      bind_of_ok (TreeM.restructure_of_ok destroyed state)]
    refine (uproot_eq _ [id] state between).trans ?_
    rw [ran]

end Links

/-- A change is made, or refused without any trace. -/
def Refused (change : TreeM σ κ Unit) (world : σ × Tree σ κ) : Prop :=
  (change world).1 = .ok () ∨ ∃ cause, change world = (.error (.forest cause), world)

theorem Refused.restructure (change : Tree σ κ → Except ForestError (Unit × Tree σ κ))
    (world : σ × Tree σ κ) : Refused (.restructure change) world := by
  obtain ⟨state, tree⟩ := world
  cases changed : change tree with
  | error cause => exact .inr ⟨cause, TreeM.restructure_of_error changed state⟩
  | ok outcome => exact .inl (congrArg Prod.fst (TreeM.restructure_of_ok changed state))

theorem Refused.onDetector (id : NodeId) (action : Detector σ κ → StateM σ (Unit × Detector σ κ))
    (world : σ × Tree σ κ) : Refused (.onDetector id action) world := by
  obtain ⟨state, tree⟩ := world
  cases found : tree.node? id with
  | none => exact .inr ⟨_, TreeM.onDetector_of_none found⟩
  | some node => exact .inl (congrArg Prod.fst (TreeM.onDetector_of_some found))

theorem Refused.destroy (id : NodeId) (world : σ × Tree σ κ) : Refused (Tree.destroy id) world := by
  obtain ⟨state, tree⟩ := world
  cases changed : Forest.destroy tree id with
  | error cause => exact .inr ⟨cause, bind_of_error (TreeM.restructure_of_error changed state)⟩
  | ok outcome =>
    exact .inl (congrArg Prod.fst (bind_of_ok (TreeM.restructure_of_ok changed state)))

section Walks

/-- A walk fails only where it starts. -/
theorem markPathToRoot_eq (linked : Linked tree []) (more : Nat) (id : NodeId) (state : σ) :
    markPathToRoot more id (state, tree) = Tree.markPathToRootAsCheckOnce id (state, tree) ∧
      Refused (markPathToRoot more id) (state, tree) := by
  cases present : tree.node? id with
  | none =>
    have refused (rounds : Nat) : Tree.markUpward (rounds + 1) (some id) (state, tree) =
        (.error (.forest (.unknown id)), (state, tree)) :=
      bind_of_error (TreeM.onDetector_of_none present)
    have marks : Tree.markPathToRootAsCheckOnce id (state, tree) = _ := refused tree.cells.length
    have steps : markPathToRoot more id (state, tree) = _ :=
      (congrArg (fun rounds => Tree.markUpward rounds (some id) (state, tree))
        (Nat.add_right_comm tree.cells.length 1 more)).trans (refused (tree.cells.length + more))
    exact ⟨steps.trans marks.symm, .inr ⟨_, steps⟩⟩
  | some node =>
    obtain ⟨path, ascent, short⟩ :=
      linked.exists_ascent (Forest.contains_iff.mpr ⟨node, present⟩)
    obtain ⟨marked, -, walked⟩ := Tree.exists_marked ascent state
    have marks : Tree.markPathToRootAsCheckOnce id (state, tree) = _ :=
      walked (tree.cells.length + 1) (by omega)
    have steps : markPathToRoot more id (state, tree) = _ :=
      walked (tree.cells.length + 1 + more) (by omega)
    exact ⟨steps.trans marks.symm, .inl (congrArg Prod.fst steps)⟩

end Walks

end Stepwise

open Stepwise (Refused)

/-- In a forest an edit does step by step what it does as a whole. -/
theorem Edit.steps_eq {tree : Tree σ κ} (linked : Linked tree []) (host : Host σ) (edit : Edit)
    (more : Nat) (state : σ) :
    edit.steps more (state, tree) = edit.operation.run host (state, tree) := by
  cases edit with
  | addChild parent child => exact Stepwise.addChild_eq linked more parent child state
  | removeChild parent child => exact Stepwise.removeChild_eq parent child state tree
  | remove id => exact Stepwise.remove_eq id state tree
  | destroy id => exact Stepwise.destroy_eq linked more id state
  | setMode id mode => rfl
  | hydrate id context locals => rfl
  | dehydrate id => rfl
  | markPathToRoot id => exact (Stepwise.markPathToRoot_eq linked more id state).1

theorem Edit.run_refused {tree : Tree σ κ} (linked : Linked tree []) (host : Host σ) (edit : Edit)
    (state : σ) : Refused (edit.operation.run host) (state, tree) := by
  cases edit with
  | addChild parent child => exact .restructure _ _
  | removeChild parent child => exact .restructure _ _
  | remove id => exact .restructure _ _
  | destroy id => exact .destroy id _
  | setMode id mode => exact .onDetector _ _ _
  | hydrate id context locals => exact .onDetector _ _ _
  | dehydrate id => exact .onDetector _ _ _
  | markPathToRoot id => exact (Stepwise.markPathToRoot_eq linked 0 id state).2

/-- Whatever has happened to a tree before, the steps of an edit come to what the edit does as a whole,
and if one of them is refused the application and the tree are still as they were. -/
theorem Tree.edit_whole_or_refused (host : Host σ) (state : σ) (operations : List (Operation σ κ))
    (edit : Edit) (more : Nat) :
    let world := Tree.after host operations (state, {})
    edit.steps more world = edit.operation.run host world ∧
      ((edit.steps more world).1 = .ok () ∨
        ∃ cause, edit.steps more world = (.error (.forest cause), world)) := by
  intro world
  have linked : Linked world.2 [] := Tree.after_linked host state operations
  have same := Edit.steps_eq linked host edit more world.1
  refine ⟨same, ?_⟩
  rw [same]
  exact Edit.run_refused linked host edit world.1

end ChangeWatch
