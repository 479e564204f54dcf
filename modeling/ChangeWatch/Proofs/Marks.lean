import ChangeWatch.Proofs.Forest.Ascent
import ChangeWatch.Proofs.Forest.Outline
import ChangeWatch.Proofs.Histories

/-!
Marks on the way up. The walk from a node to its root comes as far as the first detached node. It lets
the checked nodes that it passes be checked once more and leaves everything else as it is.
-/
namespace ChangeWatch

open Forest (Ascent)
open Stateful (bind_of_ok)

/-- The mode behind a mark: a detector that has been checked is to be checked once more. -/
def Mode.marked : Mode → Mode
  | checked => checkOnce
  | mode => mode

theorem Mode.isSkipped_marked (mode : Mode) (attached : mode ≠ detached) :
    mode.marked.isSkipped = false := by
  cases mode
  case detached => exact absurd rfl attached
  all_goals rfl

namespace Tree

/-- A node whose detector has got a mark. -/
def marked (node : Node (Detector σ κ)) : Node (Detector σ κ) :=
  { node with payload := { node.payload with mode := node.payload.mode.marked } }

def modeOf (tree : Tree σ κ) (id : NodeId) : Option Mode :=
  (tree.node? id).map fun node => node.payload.mode

/-- The nodes of a way up below the first detached one. -/
def attached (tree : Tree σ κ) (path : List NodeId) : List NodeId :=
  path.takeWhile fun id => tree.modeOf id ≠ some .detached

/-- A tree with marks on some nodes, and nothing else changed. -/
structure Marks (tree : Tree σ κ) (ids : List NodeId) (next : Tree σ κ) : Prop where
  outline : Forest.outline next = Forest.outline tree
  free : next.free = tree.free
  node? : ∀ id, next.node? id = if id ∈ ids then (tree.node? id).map marked else tree.node? id

variable {tree next last : Tree σ κ} {id : NodeId} {ids path : List NodeId}
  {start : Option NodeId} {node : Node (Detector σ κ)}

theorem marked_marked (node : Node (Detector σ κ)) : marked (marked node) = marked node := by
  obtain ⟨⟨name, registry, dispatcher, bindings, localNames, scope, mode⟩, parent, children⟩ := node
  cases mode <;> rfl

theorem modeOf_of_some (found : tree.node? id = some node) :
    tree.modeOf id = some node.payload.mode := by
  rw [modeOf, found, Option.map_some]

namespace Marks

theorem nil (tree : Tree σ κ) : Marks tree [] tree := ⟨rfl, rfl, fun _ => rfl⟩

/-- A second mark changes nothing. -/
theorem cons (first : Marks tree [id] next) (others : Marks next ids last) :
    Marks tree (id :: ids) last where
  outline := others.outline.trans first.outline
  free := others.free.trans first.free
  node? other := by
    have twice : marked ∘ marked = marked (σ := σ) (κ := κ) := funext marked_marked
    rw [others.node?, first.node?]
    by_cases here : other = id
    · subst here
      by_cases again : other ∈ ids <;> simp [again, twice]
    · simp [here]

/-- The way up stays as it is. -/
theorem ascent (marks : Marks tree ids next) (ascent : Ascent tree start path) :
    Ascent next start path := by
  induction ascent with
  | top => exact .top
  | @step id node above found rest ih =>
    have left := marks.node? id
    rw [found] at left
    split at left
    · exact .step left ih
    · exact .step left ih

/-- A mark neither detaches a node nor attaches it. -/
theorem detached (marks : Marks tree ids next) (id : NodeId) :
    next.modeOf id = some .detached ↔ tree.modeOf id = some .detached := by
  rw [modeOf, modeOf, marks.node?]
  split
  · cases tree.node? id with
    | none => rfl
    | some node =>
      simp only [Option.map_some, Option.some.injEq, marked]
      cases node.payload.mode <;> decide
  · rfl

theorem attached (marks : Marks tree ids next) (path : List NodeId) :
    next.attached path = tree.attached path := by
  simp only [Tree.attached, ne_eq, marks.detached]

end Marks

/-- A walk passes a node that is not detached. -/
theorem exists_step (found : tree.node? id = some node) (attached : node.payload.mode ≠ .detached)
    (state : σ) :
    ∃ next, Marks tree [id] next ∧ ∀ rounds,
      markUpward (rounds + 1) (some id) (state, tree) =
        markUpward rounds node.parent (state, next) := by
  have first (rounds : Nat) : markUpward (rounds + 1) (some id) (state, tree) = (do
      if node.payload.mode = .detached then return ()
      else
        if node.payload.mode = .checked then setMode id .checkOnce
        markUpward rounds (← parent id) : TreeM σ κ Unit) (state, tree) :=
    bind_of_ok (mode_of_some found state)
  simp only [if_neg attached] at first
  by_cases checked : node.payload.mode = .checked
  · have set := setMode_of_some found .checkOnce state
    let once (other : Node (Detector σ κ)) : Node (Detector σ κ) :=
      { other with payload := { node.payload with mode := .checkOnce } }
    have there : (Forest.modify tree id once).node? id = some (once node) :=
      Forest.node?_modify_of_some found once
    refine ⟨Forest.modify tree id once, ⟨Forest.outline_modify _ _ _, rfl, fun other => ?_⟩,
      fun rounds => ?_⟩
    · rw [Forest.node?_modify]
      simp only [List.mem_singleton]
      split
      · rename_i same
        simp only [same, found, Option.map_some, marked, checked, Mode.marked, once]
      · rfl
    · rw [first, if_pos checked]
      exact (bind_of_ok set).trans (bind_of_ok (parent_of_some there state))
  · refine ⟨tree, ⟨rfl, rfl, fun other => ?_⟩, fun rounds => ?_⟩
    · have unchanged : marked node = node := by
        obtain ⟨⟨name, registry, dispatcher, bindings, localNames, scope, mode⟩, _, _⟩ := node
        cases mode
        case checked => exact absurd rfl checked
        all_goals rfl
      split
      · rename_i member
        rw [List.mem_singleton.mp member, found, Option.map_some, unchanged]
      · rfl
    · rw [first, if_neg checked]
      exact bind_of_ok (parent_of_some found state)

/-- A walk along the way up marks the nodes below the first detached one, in as many rounds as there are
nodes on the way, or more. -/
theorem exists_marked (ascent : Ascent tree start path) (state : σ) :
    ∃ last, Marks tree (tree.attached path) last ∧ ∀ rounds, path.length ≤ rounds →
      markUpward rounds start (state, tree) = (.ok (), (state, last)) := by
  induction path generalizing start tree with
  | nil =>
    cases ascent
    exact ⟨tree, .nil tree, fun rounds _ => by cases rounds <;> rfl⟩
  | cons id above ih =>
    cases ascent with
    | @step _ node _ found rest =>
      have mode := modeOf_of_some found
      by_cases detached : node.payload.mode = .detached
      · have nothing : tree.attached (id :: above) = [] := by
          simp [attached, mode, detached]
        refine ⟨tree, nothing ▸ .nil tree, fun rounds enough => ?_⟩
        obtain ⟨rounds, rfl⟩ := Nat.exists_eq_add_of_lt enough
        refine (bind_of_ok (mode_of_some found state)).trans ?_
        rw [if_pos detached]
        rfl
      · obtain ⟨next, marks, stepped⟩ := exists_step found detached state
        obtain ⟨last, others, walked⟩ := ih (marks.ascent rest)
        have onward : tree.attached (id :: above) = id :: tree.attached above := by
          simp [attached, mode, detached]
        rw [marks.attached] at others
        refine ⟨last, onward ▸ marks.cons others, fun rounds enough => ?_⟩
        obtain ⟨rounds, rfl⟩ := Nat.exists_eq_add_of_lt enough
        exact (stepped _).trans (walked _ (Nat.le_add_right _ _))

end Tree
end ChangeWatch
