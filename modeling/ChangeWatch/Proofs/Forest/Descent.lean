import ChangeWatch.Proofs.Forest.Links

/-!
Subtrees of a forest: a node with everything below it. Different children of one node have subtrees
without a common node, and no way down through a forest passes more nodes than there are cells.
-/
namespace ChangeWatch.Forest

open Relation (ReflTransGen)

/-- A node belongs to the subtree of another one when a chain of parents, maybe of none, leads there. -/
def Within (forest : Forest α) : NodeId → NodeId → Prop :=
  ReflTransGen fun child parent => forest.parentOf child = some parent

/-- Nodes whose subtrees have nothing in common. -/
def Apart (forest : Forest α) (first second : NodeId) : Prop :=
  ∀ id, forest.Within id first → ¬ forest.Within id second

/-- Every way down from a node passes at most the given number of nodes. -/
def Deep (forest : Forest α) : Nat → NodeId → Prop
  | 0, _ => False
  | depth + 1, id => ∀ child ∈ forest.childrenOf id, Deep forest depth child

variable {forest next : Forest α} {id other child parent : NodeId}

theorem Within.refl (forest : Forest α) (id : NodeId) : forest.Within id id := ReflTransGen.refl

theorem within_iff : forest.Within id other ↔ id = other ∨ forest.Below id other :=
  Relation.reflTransGen_iff_eq_or_transGen.trans (or_congr_left eq_comm)

theorem Below.within (below : forest.Below id other) : forest.Within id other :=
  within_iff.mpr (.inr below)

namespace Linked

variable (linked : forest.Linked [])
include linked

theorem parentOf_child (listed : child ∈ forest.childrenOf parent) :
    forest.parentOf child = some parent :=
  ((linked.linked parent child).mp listed).2

/-- The top of the subtree of a node is there as well. -/
theorem contains_of_within (present : forest.contains id = true) (within : forest.Within id other) :
    forest.contains other = true := by
  induction within with
  | refl => exact present
  | tail _ link => exact contains_of_childrenOf ((linked.linked _ _).mpr ⟨List.not_mem_nil, link⟩)

/-- Whatever belongs to the subtree of a child lies below the parent. -/
theorem below_of_child (listed : child ∈ forest.childrenOf parent)
    (within : forest.Within id child) : forest.Below id parent :=
  Relation.TransGen.tail' within (linked.parentOf_child listed)

/-- A node lies below itself for no child. -/
theorem not_within_child (listed : child ∈ forest.childrenOf parent) :
    ¬ forest.Within parent child :=
  fun within => linked.acyclic parent (linked.below_of_child listed within)

/-- No node belongs to the subtrees of two children. -/
theorem children_apart (first : child ∈ forest.childrenOf parent)
    (second : other ∈ forest.childrenOf parent) (different : child ≠ other) :
    forest.Apart child other := by
  -- Of two nodes above a third one, one lies above the other, here a child above its sibling.
  have siblings {left right : NodeId} (first : left ∈ forest.childrenOf parent)
      (second : right ∈ forest.childrenOf parent) (within : forest.Within left right) :
      left = right := by
    rcases within_iff.mp within with same | below
    · exact same
    · obtain ⟨above, link, rest⟩ := below_iff.mp below
      cases (linked.parentOf_child first).symm.trans link
      exact absurd (within_iff.mpr rest) (linked.not_within_child second)
  intro id here there
  have unique : Relator.RightUnique fun child parent => forest.parentOf child = some parent := by
    intro child parent other link link'
    exact Option.some.inj (link.symm.trans link')
  rcases ReflTransGen.total_of_right_unique unique here there with within | within
  · exact different (siblings first second within)
  · exact different (siblings second first within).symm

theorem pairwise_apart (id : NodeId) : (forest.childrenOf id).Pairwise forest.Apart :=
  (linked.distinct id).imp_of_mem fun first second different =>
    linked.children_apart first second different

/-- On the way down to a node, all nodes passed so far lie above it and have cells of their own, so that
the way ends before there are no more cells. -/
theorem deep_of_passed (present : forest.contains id = true) (passed : List NodeId)
    (distinct : passed.Nodup) (reached : ∀ above ∈ passed, forest.contains above = true ∧
      forest.Below id above) {depth : Nat}
    (enough : forest.cells.length ≤ depth + passed.length) : forest.Deep depth id := by
  have fresh : (id :: passed).Nodup :=
    List.nodup_cons.mpr ⟨fun member => linked.acyclic id (reached id member).2, distinct⟩
  induction depth generalizing id passed with
  | zero =>
    have few := length_le_cells fresh
      (List.forall_mem_cons.mpr ⟨present, fun above member => (reached above member).1⟩)
    rw [List.length_cons] at few
    omega
  | succ depth ih =>
    intro child listed
    have link := linked.parentOf_child listed
    have above : ∀ above ∈ id :: passed, forest.contains above = true ∧ forest.Below child above :=
      List.forall_mem_cons.mpr ⟨⟨present, .single link⟩, fun above member =>
        ⟨(reached above member).1, .head link (reached above member).2⟩⟩
    refine ih (linked.contains_child listed) (id :: passed) fresh above ?_ ?_
    · rw [List.length_cons]
      omega
    · exact List.nodup_cons.mpr ⟨fun member => linked.acyclic child (above child member).2, fresh⟩

/-- No way down is longer than the number of cells. -/
theorem deep (present : forest.contains id = true) {depth : Nat}
    (enough : forest.cells.length ≤ depth) : forest.Deep depth id :=
  linked.deep_of_passed present [] List.nodup_nil (fun _ member => by cases member) enough

end Linked

theorem Deep.exists_succ {depth : Nat} (deep : forest.Deep depth id) :
    ∃ lower, depth = lower + 1 := by
  cases depth with
  | zero => exact deep.elim
  | succ lower => exact ⟨lower, rfl⟩

/-- The depth is a matter of the links. -/
theorem Deep.of_children (children : next.childrenOf = forest.childrenOf) {depth : Nat}
    (deep : forest.Deep depth id) : next.Deep depth id := by
  induction depth generalizing id with
  | zero => exact deep
  | succ depth ih =>
    intro child listed
    rw [children] at listed
    exact ih (deep child listed)

end ChangeWatch.Forest
