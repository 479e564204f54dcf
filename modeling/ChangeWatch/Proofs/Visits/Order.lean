import ChangeWatch.Proofs.Forest.Descent
import ChangeWatch.Tree.Basic

/-!
The nodes that a pass visits, in their order: a node before its children, and the children one subtree
after the other. Nodes below a skipped one are left out. In a forest every visited node is visited once.
-/
namespace ChangeWatch.Tree

open Forest (Within Apart Deep Linked)

/-- A node whose detector is not skipped. -/
def Awake (tree : Tree σ κ) (id : NodeId) : Prop :=
  ∃ node, tree.node? id = some node ∧ node.payload.mode.isSkipped = false

/-- A node is active below another one when no node on the way from there is skipped, itself
included. -/
inductive Active (tree : Tree σ κ) (top : NodeId) : NodeId → Prop where
  | top (awake : Awake tree top) : Active tree top top
  | child {parent child : NodeId} (reached : Active tree top parent)
    (listed : child ∈ Forest.childrenOf tree parent) (awake : Awake tree child) :
    Active tree top child

/-- The visits of subtrees, one after the other: the nodes visited on the way, in order. -/
inductive Walk (tree : Tree σ κ) : List NodeId → List NodeId → Prop where
  | done : Walk tree [] []
  | skip {id : NodeId} {ids rest : List NodeId} {node : Node (Detector σ κ)}
    (found : tree.node? id = some node) (skipped : node.payload.mode.isSkipped = true)
    (others : Walk tree ids rest) : Walk tree (id :: ids) rest
  | enter {id : NodeId} {ids below rest : List NodeId} {node : Node (Detector σ κ)}
    (found : tree.node? id = some node) (awake : node.payload.mode.isSkipped = false)
    (children : Walk tree node.children below) (others : Walk tree ids rest) :
    Walk tree (id :: ids) (id :: (below ++ rest))

variable {tree : Tree σ κ} {id top child : NodeId} {ids visited : List NodeId}

/-- A way from a child continues the way to the child. -/
theorem Active.of_child (awake : Awake tree top) (listed : child ∈ Forest.childrenOf tree top)
    (active : Active tree child id) : Active tree top id := by
  induction active with
  | top awake' => exact .child (.top awake) listed awake'
  | child _ listed' awake' ih => exact .child ih listed' awake'

theorem Active.awake_top (active : Active tree top id) : Awake tree top := by
  induction active with
  | top awake => exact awake
  | child _ _ _ ih => exact ih

theorem Active.awake (active : Active tree top id) : Awake tree id := by
  cases active with
  | top awake => exact awake
  | child _ _ awake => exact awake

namespace Walk

/-- Whatever is visited belongs to the subtree of a node that the visits start from. -/
theorem within (linked : Linked tree []) (walk : Walk tree ids visited) :
    ∀ id ∈ visited, ∃ top ∈ ids, Within tree id top := by
  induction walk with
  | done => exact fun _ member => by cases member
  | skip _ _ _ others =>
    intro id member
    obtain ⟨top, listed, within⟩ := others id member
    exact ⟨top, List.mem_cons_of_mem _ listed, within⟩
  | @enter first _ _ _ node found _ _ _ below others =>
    refine List.forall_mem_cons.mpr ⟨⟨first, List.mem_cons_self, .refl tree first⟩, ?_⟩
    refine List.forall_mem_append.mpr ⟨fun id member => ?_, fun id member => ?_⟩
    · obtain ⟨child, listed, within⟩ := below id member
      rw [← Forest.childrenOf_of_some found] at listed
      exact ⟨first, List.mem_cons_self, (linked.below_of_child listed within).within⟩
    · obtain ⟨top, listed, within⟩ := others id member
      exact ⟨top, List.mem_cons_of_mem _ listed, within⟩

/-- What is visited below a node lies there. -/
theorem beneath (linked : Linked tree []) {node : Node (Detector σ κ)}
    (found : tree.node? top = some node) (walk : Walk tree node.children visited) :
    ∀ id ∈ visited, Forest.Below tree id top := by
  intro id member
  obtain ⟨child, listed, within⟩ := walk.within linked id member
  rw [← Forest.childrenOf_of_some found] at listed
  exact linked.below_of_child listed within

/-- Visits of subtrees that have nothing in common meet no node twice. -/
theorem nodup (linked : Linked tree []) (walk : Walk tree ids visited)
    (apart : ids.Pairwise (Apart tree)) : visited.Nodup := by
  induction walk with
  | done => exact List.nodup_nil
  | skip _ _ _ others => exact others (List.pairwise_cons.mp apart).2
  | @enter first ids below rest node found _ children others ihBelow ihRest =>
    obtain ⟨elsewhere, apart⟩ := List.pairwise_cons.mp apart
    have listed := Forest.childrenOf_of_some found
    have lower : ∀ id ∈ below, Forest.Below tree id first := children.beneath linked found
    have outside : ∀ id ∈ rest, ¬ Within tree id first := by
      intro id member within
      obtain ⟨top, among, within'⟩ := others.within linked id member
      exact elsewhere top among id within within'
    refine List.nodup_cons.mpr ⟨fun member => ?_, List.nodup_append.mpr ⟨?_, ihRest apart, ?_⟩⟩
    · rcases List.mem_append.mp member with member | member
      · exact linked.acyclic first (lower first member)
      · exact outside first member (.refl tree first)
    · exact ihBelow (listed ▸ linked.pairwise_apart first)
    · rintro id member _ member' rfl
      exact outside id member' (lower id member).within

theorem mem_of_awake (walk : Walk tree ids visited) (listed : id ∈ ids) (awake : Awake tree id) :
    id ∈ visited := by
  induction walk with
  | done => cases listed
  | skip found skipped _ others =>
    rcases List.mem_cons.mp listed with rfl | listed
    · obtain ⟨node, found', awake⟩ := awake
      cases found.symm.trans found'
      cases skipped.symm.trans awake
    · exact others listed
  | enter _ _ _ _ _ others =>
    rcases List.mem_cons.mp listed with rfl | listed
    · exact List.mem_cons_self
    · exact List.mem_cons_of_mem _ (List.mem_append_right _ (others listed))

/-- A visited node passes the visit on to its children. -/
theorem mem_of_child (walk : Walk tree ids visited) (reached : id ∈ visited)
    (listed : child ∈ Forest.childrenOf tree id) (awake : Awake tree child) : child ∈ visited := by
  induction walk with
  | done => cases reached
  | skip _ _ _ others => exact others reached
  | enter found _ children _ ihBelow ihRest =>
    rcases List.mem_cons.mp reached with rfl | reached
    · rw [Forest.childrenOf_of_some found] at listed
      exact List.mem_cons_of_mem _ (List.mem_append_left _ (children.mem_of_awake listed awake))
    · rcases List.mem_append.mp reached with reached | reached
      · exact List.mem_cons_of_mem _ (List.mem_append_left _ (ihBelow reached))
      · exact List.mem_cons_of_mem _ (List.mem_append_right _ (ihRest reached))

/-- The visited nodes are the active ones. -/
theorem mem_iff (walk : Walk tree ids visited) :
    id ∈ visited ↔ ∃ top ∈ ids, Active tree top id := by
  constructor
  · intro member
    induction walk generalizing id with
    | done => cases member
    | skip _ _ _ others =>
      obtain ⟨top, listed, active⟩ := others member
      exact ⟨top, List.mem_cons_of_mem _ listed, active⟩
    | @enter first _ _ _ node found awake _ _ below others =>
      rcases List.mem_cons.mp member with rfl | member
      · exact ⟨id, List.mem_cons_self, .top ⟨node, found, awake⟩⟩
      · rcases List.mem_append.mp member with member | member
        · obtain ⟨child, listed, active⟩ := below member
          rw [← Forest.childrenOf_of_some found] at listed
          exact ⟨first, List.mem_cons_self, active.of_child ⟨node, found, awake⟩ listed⟩
        · obtain ⟨top, listed, active⟩ := others member
          exact ⟨top, List.mem_cons_of_mem _ listed, active⟩
  · rintro ⟨top, listed, active⟩
    induction active with
    | top awake => exact walk.mem_of_awake listed awake
    | child _ listed' awake ih => exact walk.mem_of_child ih listed' awake

end Walk

/-- A tree leaves no choice in the order of its visits. -/
theorem Walk.unique {other : List NodeId} (walk : Walk tree ids visited)
    (walk' : Walk tree ids other) : visited = other := by
  induction walk generalizing other with
  | done =>
    cases walk'
    rfl
  | skip found skipped _ ih =>
    cases walk' with
    | skip _ _ others => exact ih others
    | enter found' awake _ _ =>
      cases found.symm.trans found'
      cases skipped.symm.trans awake
  | enter found awake _ _ ihBelow ihRest =>
    cases walk' with
    | skip found' skipped _ =>
      cases found.symm.trans found'
      cases skipped.symm.trans awake
    | enter found' _ children others =>
      cases found.symm.trans found'
      rw [ihBelow children, ihRest others]

/-- In a forest of bounded depth every visit has an order. -/
theorem exists_walk (linked : Linked tree []) {depth : Nat} {ids : List NodeId}
    (present : ∀ id ∈ ids, Forest.contains tree id = true) (deep : ∀ id ∈ ids, Deep tree depth id) :
    ∃ visited, Walk tree ids visited := by
  induction depth generalizing ids with
  | zero =>
    cases ids with
    | nil => exact ⟨[], .done⟩
    | cons id ids => exact (deep id List.mem_cons_self).elim
  | succ depth ihDepth =>
    induction ids with
    | nil => exact ⟨[], .done⟩
    | cons id ids ih =>
      obtain ⟨here, others⟩ := List.forall_mem_cons.mp present
      obtain ⟨lower, deep⟩ := List.forall_mem_cons.mp deep
      obtain ⟨rest, walk⟩ := ih others deep
      obtain ⟨node, found⟩ := Forest.contains_iff.mp here
      cases awake : node.payload.mode.isSkipped with
      | true => exact ⟨rest, .skip found awake walk⟩
      | false =>
        have listed := Forest.childrenOf_of_some found
        have there : ∀ child ∈ node.children, Forest.contains tree child = true :=
          listed ▸ fun child member => linked.contains_child member
        obtain ⟨below, children⟩ := ihDepth there (listed ▸ lower)
        exact ⟨_, .enter found awake children walk⟩

end ChangeWatch.Tree
