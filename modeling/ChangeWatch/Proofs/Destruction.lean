import Mathlib.Data.List.Forall2
import ChangeWatch.Proofs.Effects
import ChangeWatch.Proofs.Lifetimes.Trees
import ChangeWatch.Proofs.Stepwise

/-!
What destroying a subtree leaves. The nodes of the subtree are gone, each one once, and the node above it
has one child less; all others are as they were. The application has been told of every pipe that the
detectors of the subtree had in use.
-/
namespace ChangeWatch

open Forest (Linked Within)

namespace Forest

variable {forest last : Forest α} {id top : NodeId} {pending gone : List NodeId} {payloads : List α}

namespace Uprooting

/-- No node is emptied twice. -/
theorem nodup (course : Uprooting forest pending gone payloads last) : gone.Nodup := by
  induction course with
  | done linked => exact List.nodup_nil
  | @next forest last id node cell pending gone payloads linked distinct found looked rest ih =>
    refine List.nodup_cons.mpr ⟨fun again => ?_, ih⟩
    have there := rest.contains id again
    rw [Forest.contains, node?_vacate looked (contains_iff.mpr ⟨node, found⟩), if_pos rfl] at there
    cases there

/-- Every node that is gone gives its own payload back. -/
theorem payloadOf (course : Uprooting forest pending gone payloads last) :
    List.Forall₂ (fun id payload => forest.payloadOf id = some payload) gone payloads := by
  induction course with
  | done linked => exact .nil
  | @next forest last id node cell pending gone payloads linked distinct found looked rest ih =>
    refine .cons (by rw [Forest.payloadOf, found, Option.map_some]) (ih.imp fun other payload held => ?_)
    rw [Forest.payloadOf, node?_vacate looked (contains_iff.mpr ⟨node, found⟩)] at held
    split at held
    · cases held
    · exact held

/-- Every cell that is emptied becomes free. -/
theorem lengths (course : Uprooting forest pending gone payloads last) :
    last.cells.length = forest.cells.length ∧
      last.free.length = forest.free.length + gone.length := by
  induction course with
  | done linked => exact ⟨rfl, rfl⟩
  | next linked distinct found looked rest ih =>
    simp only [vacate, List.length_set, List.length_cons] at ih ⊢
    omega

end Uprooting

/-- A forest without one of its subtrees, where `gone` are the nodes of the subtree with their
payloads. -/
structure Felled (forest : Forest α) (top : NodeId) (gone : List NodeId) (payloads : List α)
    (next : Forest α) : Prop where
  distinct : gone.Nodup
  within : ∀ id, id ∈ gone ↔ forest.Within id top
  payloads : List.Forall₂ (fun id payload => forest.payloadOf id = some payload) gone payloads
  contains : ∀ id, next.contains id = true ↔ forest.contains id = true ∧ ¬ forest.Within id top
  size : next.size + gone.length = forest.size
  others : ∀ id, ¬ forest.Within id top →
    next.node? id = (forest.node? id).map fun node =>
      if forest.parentOf top = some id then
        { node with children := node.children.filter (· != top) }
      else node

/-- Without a link the node above has one child less, in the same order. -/
theorem Linked.node?_remove (linked : forest.Linked []) {between : Forest α}
    (removed : forest.remove top = .ok between) (apart : id ≠ top) :
    between.node? id = (forest.node? id).map fun node =>
      if forest.parentOf top = some id then
        { node with children := node.children.filter (· != top) }
      else node := by
  cases found : forest.node? top with
  | none => cases (remove_of_none found).symm.trans removed
  | some node =>
    have link := parentOf_of_some found
    cases (linked.remove_of_some found).symm.trans removed
    cases above : node.parent with
    | none => simp [link, above]
    | some parent =>
      rw [Option.elim_some, detach, node?_modify, if_neg apart, node?_modify, link, above]
      by_cases here : id = parent
      · subst here
        cases upper : forest.node? id with
        | none => simp
        | some node =>
          have distinct := linked.distinct id
          rw [childrenOf_of_some upper] at distinct
          simp [distinct.erase_eq_filter]
      · simp [here, Ne.symm here]

theorem Linked.felled (linked : forest.Linked []) (present : forest.contains top = true) :
    ∃ gone payloads next, forest.destroy top = .ok (payloads, next) ∧
      Felled forest top gone payloads next := by
  obtain ⟨node, found⟩ := contains_iff.mp present
  have removed := linked.remove_of_some found
  have free : (node.parent.elim forest fun parent => forest.detach parent top).free = forest.free := by
    cases node.parent <;> rfl
  generalize node.parent.elim forest (fun parent => forest.detach parent top) = between at removed free
  obtain ⟨gone, payloads, last, course, destroyed, -, within⟩ := linked.destroy_course removed
  have others (id : NodeId) (outside : ¬ forest.Within id top) :
      last.node? id = (forest.node? id).map fun node =>
        if forest.parentOf top = some id then
          { node with children := node.children.filter (· != top) }
        else node := by
    have apart : id ≠ top := by
      rintro rfl
      exact outside (.refl forest id)
    rw [course.node?, if_neg fun member => outside ((within id).mp member),
      linked.node?_remove removed apart]
  refine ⟨gone, payloads, last, destroyed, course.nodup, within, ?_, fun id => ?_, ?_, others⟩
  · rw [← (samePayloads_remove linked removed).payloadOf]
    exact course.payloadOf
  · by_cases inside : forest.Within id top
    · simp [Forest.contains, course.node?, (within id).mpr inside, inside]
    · simp [Forest.contains, others id inside, inside]
  · have cells := congrArg List.length (outline_remove linked removed)
    have regular := (linked.destroy destroyed).regular.bounded
    obtain ⟨same, more⟩ := course.lengths
    rw [outline, outline, List.length_map, List.length_map] at cells
    rw [size, size]
    rw [free] at more
    omega

end Forest

/-- Tells a registry that some pipes will not be used again, one after the other. -/
def Registry.destroyEach (registry : Registry σ κ) (pipes : List (LivePipe κ)) (state : σ) : σ :=
  pipes.foldl (fun state pipe => (registry.destroy pipe state).2) state

/-- The pipes that a detector has in use. -/
def Detector.pipes (detector : Detector σ κ) : List (LivePipe κ) :=
  detector.bindings.flatMap fun binding => binding.slots.filterMap PipeSlot.pipe

/-- The application behind the end of all pipes of a detector. -/
def Detector.endPipes (detector : Detector σ κ) (state : σ) : σ :=
  detector.registry.destroyEach detector.pipes state

theorem PipeSlot.clearAll_state (registry : Registry σ κ) (slots : List (PipeSlot κ)) (state : σ) :
    (clearAll registry slots state).2 =
      registry.destroyEach (slots.filterMap PipeSlot.pipe) state := by
  induction slots generalizing state with
  | nil => rfl
  | cons slot slots ih =>
    refine (ih (slot.clear registry state).2).trans ?_
    obtain ⟨pipe, last, made⟩ := slot
    cases pipe <;> rfl

namespace Detector

theorem clearAll_state (registry : Registry σ κ) (bindings : List (Binding κ)) (state : σ) :
    (clearAll registry bindings state).2 = registry.destroyEach
      (bindings.flatMap fun binding => binding.slots.filterMap PipeSlot.pipe) state := by
  induction bindings generalizing state with
  | nil => rfl
  | cons binding bindings ih =>
    have first : (binding.clear registry state).2 = _ :=
      PipeSlot.clearAll_state registry binding.slots state
    refine (ih (binding.clear registry state).2).trans ?_
    rw [first, List.flatMap_cons, Registry.destroyEach, Registry.destroyEach, Registry.destroyEach,
      List.foldl_append]

theorem dehydrate_state (detector : Detector σ κ) (state : σ) :
    (detector.dehydrate state).2 = detector.endPipes state :=
  clearAll_state detector.registry detector.bindings state

end Detector

namespace Tree

theorem dehydrateAll_state (detectors : List (Detector σ κ)) (state : σ) :
    (dehydrateAll detectors state).2 =
      detectors.foldl (fun state detector => detector.endPipes state) state := by
  induction detectors generalizing state with
  | nil => rfl
  | cons detector detectors ih =>
    refine (ih (detector.dehydrate state).2).trans ?_
    rw [detector.dehydrate_state, List.foldl_cons]

/-- Whatever has been done with a tree, destroying a node succeeds, and the loop that does it ends by
itself. The subtree of the node is gone, each pipe of its detectors has been destroyed, and nothing
else has changed but the list of children that the node was in. -/
theorem destroy_fells_subtree (host : Host σ) (start : σ) (operations : List (Operation σ κ))
    {id : NodeId} (live : Forest.contains (after host operations (start, {})).2 id = true) :
    let world := after host operations (start, {})
    ∃ gone removed next, Forest.Felled world.2 id gone removed next ∧
      destroy id world =
        (.ok (), (removed.foldl (fun state detector => detector.endPipes state) world.1, next)) ∧
      ∀ more, Stepwise.destroy more id world = destroy id world := by
  intro world
  have linked : Linked world.2 [] := after_linked host start operations
  obtain ⟨gone, removed, next, destroyed, felled⟩ := linked.felled live
  refine ⟨gone, removed, next, felled, ?_, fun more => Stepwise.destroy_eq linked more id world.1⟩
  refine (Stateful.bind_of_ok (TreeM.restructure_of_ok destroyed world.1)).trans ?_
  exact congrArg (fun state => (Except.ok (), (state, next))) (dehydrateAll_state removed world.1)

end Tree

namespace Recorder

def nth (index : Nat) : NodeId := { index, generation := 0 }

/-- A root, its child and the child of that, which have a pipe each. -/
def chain : List (Operation (Journal Nat) Nat) :=
  (List.range 3).map (fun index =>
    .insert { name := "a", registry, strategy := .compiled } (.detector index)
      (fun _ _ => pure (.ok ())) [{ source, binding := ⟨"a"⟩, group := ⟨"a"⟩ }] []) ++
    [.addChild (nth 0) (nth 1), .addChild (nth 1) (nth 2)] ++
    (List.range 3).map (fun index => .hydrate (nth index) .null []) ++ [.detect (nth 0)]

/-- Without the child of the root and the node below it, only the pipe of the root is left. -/
theorem destroy_fells_subtree_chain :
    let world := Tree.after application chain ([], {})
    Forest.contains world.2 (nth 1) = true ∧ ∃ (gone : List NodeId)
        (removed : List (Detector (Journal Nat) Nat)) (next : Tree (Journal Nat) Nat),
      Forest.Felled world.2 (nth 1) gone removed next ∧ gone.length = 2 ∧
      Tree.destroy (nth 1) world = (.ok (), (world.1 ++ [.destroyed 2, .destroyed 3], next)) := by
  intro world
  have live : Forest.contains world.2 (nth 1) = true := by decide +kernel
  have journal : (Tree.destroy (κ := Nat) (nth 1) world).2.1 =
      world.1 ++ [.destroyed 2, .destroyed 3] := by
    decide +kernel
  have sizes : (Tree.destroy (κ := Nat) (nth 1) world).2.2.size + 2 = world.2.size := by
    decide +kernel
  obtain ⟨gone, removed, next, felled, destroyed, -⟩ :=
    Tree.destroy_fells_subtree application [] chain live
  rw [destroyed] at journal sizes
  refine ⟨live, gone, removed, next, felled, ?_, ?_⟩
  · have size : next.size + gone.length = world.2.size := felled.size
    exact Nat.add_left_cancel (size.trans sizes.symm)
  · rw [destroyed]
    exact congrArg (fun journal => (Except.ok (), (journal, next))) journal

end Recorder
end ChangeWatch
