import ChangeWatch.Proofs.Forest.Removal
import ChangeWatch.Proofs.Histories

/-!
The arena of a tree is a forest, whatever has been done with the tree: parents and children know each
other, nothing lies below itself, and the free cells are the empty ones. So the number of nodes is known
without counting, and a link is refused only for want of a node or for the sake of the forest.
-/
namespace ChangeWatch

namespace Forest

/-- An arena that is a forest, as its handles see it. -/
structure Regular (forest : Forest α) : Prop where
  linked : ∀ parent child, child ∈ forest.childrenOf parent ↔ forest.parentOf child = some parent
  parents : ∀ child parent, forest.parentOf child = some parent → forest.contains parent = true
  children : ∀ parent child, child ∈ forest.childrenOf parent → forest.contains child = true
  distinct : ∀ id, (forest.childrenOf id).Nodup
  acyclic : ∀ id, ¬ forest.Below id id
  freeDistinct : forest.free.Nodup
  free : ∀ index, index ∈ forest.free ↔ forest.Vacant index
  bounded : forest.free.length ≤ forest.cells.length
  size : forest.size = forest.cells.countP fun cell => cell.node.isSome

variable {forest next : Forest α}

theorem Linked.empty : Linked ({} : Forest α) [] where
  linked parent child := by simp [childrenOf, parentOf, node?]
  distinct id := by simp [childrenOf, node?]
  acyclic id cycle := by
    obtain ⟨parent, link, -⟩ := below_iff.mp cycle
    cases link
  freeDistinct := List.nodup_nil
  free index := by simp [Vacant]

/-- There are as many free cells as empty ones. -/
theorem Linked.free_length {loose : List NodeId} (linked : forest.Linked loose) :
    forest.free.length = forest.cells.countP fun cell => cell.node.isNone := by
  let vacant := (forest.cells.zipIdx.filter fun entry => entry.1.node.isNone).map Prod.snd
  have distinct : vacant.Nodup := by
    have indexes : (forest.cells.zipIdx.map Prod.snd).Nodup := by
      rw [List.zipIdx_map_snd]
      exact List.nodup_range'
    exact indexes.sublist (List.filter_sublist.map Prod.snd)
  have same : forest.free.Perm vacant := by
    rw [List.perm_ext_iff_of_nodup linked.freeDistinct distinct]
    intro index
    rw [linked.free, Vacant]
    simp only [vacant, List.mem_map, List.mem_filter, Prod.exists, List.mem_zipIdx_iff_getElem?,
      exists_eq_right, Option.isNone_iff_eq_none]
  have fields : forest.cells.zipIdx.map Prod.fst = forest.cells := List.zipIdx_map_fst 0 forest.cells
  rw [same.length_eq, List.length_map, ← List.countP_eq_length_filter]
  conv => rhs; rw [← fields, List.countP_map]
  rfl

theorem Linked.regular (linked : forest.Linked []) : forest.Regular := by
  have vacant := linked.free_length
  have cells := List.length_eq_countP_add_countP (fun cell : Cell α => cell.node.isSome)
    (l := forest.cells)
  have empty : forest.cells.countP (fun cell => decide ¬cell.node.isSome = true) =
      forest.cells.countP fun cell => cell.node.isNone := by
    congr 1
    funext cell
    cases cell.node <;> rfl
  rw [empty] at cells
  refine ⟨?_, ?_, ?_, linked.distinct, linked.acyclic, linked.freeDistinct, linked.free, ?_, ?_⟩
  · intro parent child
    rw [linked.linked parent child]
    simp
  · intro child parent link
    have listed := (linked.linked parent child).mpr ⟨List.not_mem_nil, link⟩
    exact contains_of_childrenOf listed
  · intro parent child listed
    exact linked.contains_child listed
  · omega
  · rw [size]
    omega

/-- A relation of forests with the same links and the same free cells. -/
structure Alike (first second : Forest α) : Prop where
  parents : second.parentOf = first.parentOf
  children : second.childrenOf = first.childrenOf
  free : second.free = first.free
  vacant : ∀ index, second.Vacant index ↔ first.Vacant index

theorem Linked.alike (linked : forest.Linked []) (alike : Alike forest next) : next.Linked [] :=
  linked.of_views alike.parents alike.children alike.free alike.vacant

theorem Alike.modify {f : Node α → Node α} (parents : ∀ node, (f node).parent = node.parent)
    (children : ∀ node, (f node).children = node.children) (forest : Forest α) (id : NodeId) :
    Alike forest (forest.modify id f) where
  parents := parentOf_modify parents id
  children := childrenOf_modify children id
  free := free_modify forest id f
  vacant := vacant_modify forest id f

end Forest

open Forest (Linked Alike Regular)
open Stateful (Along)

/-- Worlds whose trees have the same links. -/
def Tree.Alike (first second : σ × Tree σ κ) : Prop := Forest.Alike first.2 second.2

namespace Tree

instance : Std.Refl (Tree.Alike (σ := σ) (κ := κ)) where
  refl _ := ⟨rfl, rfl, rfl, fun _ => Iff.rfl⟩

instance : Trans (Tree.Alike (σ := σ) (κ := κ)) Tree.Alike Tree.Alike where
  trans first second :=
    { parents := second.parents.trans first.parents
      children := second.children.trans first.children
      free := second.free.trans first.free
      vacant := fun index => (second.vacant index).trans (first.vacant index) }

/-- An operation on a detector keeps all links. -/
theorem onDetector_alike (id : NodeId) (action : Detector σ κ → StateM σ (α × Detector σ κ)) :
    Along Tree.Alike (TreeM.onDetector id action) :=
  onDetector_along id fun _ tree _ _ => Forest.Alike.modify (fun _ => by rfl) (fun _ => by rfl) tree id

theorem checkNode_alike (host : Host σ) (purpose : Purpose) (id : NodeId) :
    Along Tree.Alike (checkNode (κ := κ) host purpose id) :=
  checkNode_along (onDetector_alike id _)

/-- A pass keeps all links. -/
theorem pass_alike (host : Host σ) (purpose : Purpose) (id : NodeId) :
    Along Tree.Alike (pass (κ := κ) host purpose id) := by
  intro world
  exact visit_along (checkNode_alike host purpose)
    (fun _ => mark_along fun _ => onDetector_alike _ _) _ id world

end Tree

/-- A change of the tree alone keeps the forest when what it makes of a forest is one. -/
theorem TreeM.restructure_linked {change : Tree σ κ → Except ForestError (α × Tree σ κ)}
    {world : σ × Tree σ κ} (linked : Linked world.2 [])
    (keeps : ∀ value next, change world.2 = .ok (value, next) → Linked next []) :
    Linked (restructure change world).2.2 [] := by
  obtain ⟨state, tree⟩ := world
  simp only [restructure]
  cases changed : change tree with
  | error cause => exact linked
  | ok outcome => exact keeps outcome.1 outcome.2 changed

/-- Every operation keeps the forest. -/
theorem Operation.run_linked {host : Host σ} (operation : Operation σ κ) {world : σ × Tree σ κ}
    (linked : Linked world.2 []) : Linked (operation.run host world).2.2 [] := by
  have mapped {change : Tree σ κ → Except ForestError (Tree σ κ)}
      (keeps : ∀ next, change world.2 = .ok next → Linked next []) :
      Linked (TreeM.restructure (fun tree => (change tree).map fun tree => ((), tree)) world).2.2
        [] := by
    refine TreeM.restructure_linked linked fun value next changed => ?_
    cases ran : change world.2 with
    | error cause =>
      rw [ran] at changed
      cases changed
    | ok other =>
      rw [ran] at changed
      cases changed
      exact keeps next ran
  cases operation with
  | mutate change => exact linked
  | insert proto place dispatcher records localNames => exact linked.insert _
  | addChild parent child => exact mapped fun next => linked.addChild
  | removeChild parent child => exact mapped fun next => linked.removeChild
  | remove id => exact mapped fun next removed => (linked.remove removed).1
  | destroy id =>
    simp only [run, Tree.destroy, Stateful.bind_apply]
    have destroyed : Linked (TreeM.restructure (fun tree => Forest.destroy tree id) world).2.2 [] :=
      TreeM.restructure_linked linked fun payloads next changed => linked.destroy changed
    generalize TreeM.restructure (fun tree => Forest.destroy tree id) world = ran at destroyed ⊢
    obtain ⟨result, later⟩ := ran
    cases result <;> exact destroyed
  | hydrate id context locals => exact linked.alike (Tree.onDetector_alike id _ world)
  | dehydrate id => exact linked.alike (Tree.onDetector_alike id _ world)
  | setMode id mode => exact linked.alike (Tree.onDetector_alike id _ world)
  | markPathToRoot id =>
    have alike : Along Tree.Alike
        (Tree.markUpward (σ := σ) (κ := κ) (world.2.cells.length + 1) (some id)) :=
      Tree.markUpward_along (fun _ _ => Tree.onDetector_alike _ _) _ _
    exact linked.alike (alike world)
  | detect id => exact linked.alike (Tree.pass_alike host .detect id world)
  | verify id => exact linked.alike (Tree.pass_alike host .verify id world)

namespace Tree

theorem after_linked (host : Host σ) (state : σ) (operations : List (Operation σ κ)) :
    Linked (after host operations (state, {})).2 [] :=
  after_induction (P := fun world => Linked world.2 []) Linked.empty
    fun operation _ _ linked => operation.run_linked linked

/-- Whatever happens, the arena is a forest, and nodes can be linked exactly if it stays one. -/
theorem regular_after (host : Host σ) (state : σ) (operations : List (Operation σ κ)) :
    let world := after host operations (state, {})
    Regular world.2 ∧ ∀ parent child,
      (addChild parent child world).1 = .ok () ↔
        Forest.contains world.2 parent = true ∧ Forest.contains world.2 child = true ∧
          Forest.parentOf world.2 child = none ∧ child ≠ parent ∧
          ¬ Forest.Below world.2 parent child := by
  intro world
  have linked : Linked world.2 [] := after_linked host state operations
  refine ⟨linked.regular, fun parent child => ?_⟩
  have added (next : Tree σ κ) : Forest.addChild world.2 parent child = .ok next ↔ _ :=
    Forest.addChild_eq_ok linked parent child
  simp only [addChild, TreeM.restructure]
  cases ran : Forest.addChild world.2 parent child with
  | ok next =>
    have admitted := ((added next).mp ran).2
    exact ⟨fun _ => admitted, fun _ => rfl⟩
  | error cause =>
    constructor
    · intro impossible
      cases impossible
    · intro admitted
      have accepted := (added _).mpr ⟨rfl, admitted⟩
      cases ran.symm.trans accepted

end Tree
end ChangeWatch
