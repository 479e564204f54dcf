import ChangeWatch.Proofs.Forest.Descent
import ChangeWatch.Proofs.Forest.Removal

/-!
Uprooting as a course of steps, one for each node. Pending nodes are in no list of children, so the
course empties the cells of these nodes and of what is listed below them; all other nodes stay as they
are.
-/
namespace ChangeWatch.Forest

open Relation (ReflTransGen)

/-- A node is listed under another one when a chain of lists of children, maybe of none, leads down to
it. -/
def Under (forest : Forest α) : NodeId → NodeId → Prop :=
  ReflTransGen fun child parent => child ∈ forest.childrenOf parent

/-- A course from a forest with pending nodes to one without any, with the nodes in the order in which
their cells are emptied, and with their payloads. -/
inductive Uprooting : Forest α → List NodeId → List NodeId → List α → Forest α → Prop where
  | done {forest : Forest α} (linked : forest.Linked []) : Uprooting forest [] [] [] forest
  | next {forest last : Forest α} {id : NodeId} {node : Node α} {cell : Cell α}
      {pending gone : List NodeId} {payloads : List α} (linked : forest.Linked (id :: pending))
      (distinct : (id :: pending).Nodup) (found : forest.node? id = some node)
      (looked : forest.cells[id.index]? = some cell)
      (rest : Uprooting (forest.vacate id.index cell) (node.children.reverse ++ pending) gone payloads
        last) :
      Uprooting forest (id :: pending) (id :: gone) (node.payload :: payloads) last

variable {forest last : Forest α} {id other : NodeId} {node : Node α} {cell : Cell α}
  {pending gone : List NodeId} {payloads : List α}

/-- With a step for every pending node and for every link no node is left, and any more of them change
nothing. -/
theorem Linked.uprooting (linked : forest.Linked pending) (distinct : pending.Nodup)
    (present : ∀ other ∈ pending, forest.contains other = true) {steps : Nat}
    (enough : pending.length + forest.links ≤ steps) :
    ∃ gone payloads last, Uprooting forest pending gone payloads last ∧
      ∀ more, Forest.uproot (steps + more) pending forest = (payloads, last) := by
  induction steps generalizing forest pending with
  | zero =>
    cases pending with
    | nil =>
      refine ⟨[], [], forest, .done linked, fun more => ?_⟩
      cases 0 + more <;> rfl
    | cons id pending =>
      rw [List.length_cons] at enough
      omega
  | succ steps ih =>
    cases pending with
    | nil =>
      refine ⟨[], [], forest, .done linked, fun more => ?_⟩
      cases steps + 1 + more <;> rfl
    | cons id pending =>
      obtain ⟨here, others⟩ := List.forall_mem_cons.mp present
      obtain ⟨node, found⟩ := contains_iff.mp here
      obtain ⟨cell, looked, -, -⟩ := uproot_cons found steps pending
      obtain ⟨linked', distinct', present'⟩ := linked.vacate looked found distinct others
      have fewer := links_vacate looked found
      obtain ⟨gone, payloads, last, rest, ran⟩ := ih linked' distinct' present' (by
        rw [List.length_append, List.length_reverse]
        rw [List.length_cons] at enough
        omega)
      refine ⟨_, _, last, .next linked distinct found looked rest, fun more => ?_⟩
      obtain ⟨cell', looked', -, stepped⟩ := uproot_cons found (steps + more) pending
      cases looked.symm.trans looked'
      rw [Nat.add_right_comm, stepped, ran]

theorem Linked.not_listed (linked : forest.Linked (id :: pending)) (upper : NodeId) :
    id ∉ forest.childrenOf upper := by
  intro listed
  exact ((linked.linked upper id).mp listed).1 List.mem_cons_self

namespace Uprooting

/-- The nodes that a course empties are gone, and other handles find what they found before. -/
theorem node? (course : Uprooting forest pending gone payloads last) (other : NodeId) :
    last.node? other = if other ∈ gone then none else forest.node? other := by
  induction course with
  | done linked => simp
  | @next forest last id node cell pending gone payloads linked distinct found looked rest ih =>
    rw [ih, node?_vacate looked (contains_iff.mpr ⟨node, found⟩)]
    by_cases same : other = id <;> simp [same]

/-- Links in the subtrees of other nodes do without the pending node. -/
theorem under_vacate (linked : forest.Linked (id :: pending)) (found : forest.node? id = some node)
    (looked : forest.cells[id.index]? = some cell) {top : NodeId} (apart : top ≠ id) :
    (forest.vacate id.index cell).Under other top ↔ forest.Under other top := by
  have children (upper : NodeId) : (forest.vacate id.index cell).childrenOf upper =
      if upper = id then [] else forest.childrenOf upper := by
    simp only [childrenOf, node?_vacate looked (contains_iff.mpr ⟨node, found⟩)]
    split <;> rfl
  constructor
  · refine ReflTransGen.mono (fun child parent listed => ?_) other top
    rw [children] at listed
    split at listed
    · cases listed
    · exact listed
  · intro under
    induction under using ReflTransGen.head_induction_on with
    | refl => exact .refl
    | @head child parent listed above ih =>
      have kept : parent ≠ id := by
        rintro rfl
        rcases ReflTransGen.cases_head above with same | ⟨upper, further, -⟩
        · exact apart same.symm
        · exact linked.not_listed upper further
      refine .head ?_ ih
      rw [children, if_neg kept]
      exact listed

/-- A course empties the cells of the pending nodes and of what is listed under them. -/
theorem mem_gone (course : Uprooting forest pending gone payloads last) (other : NodeId) :
    other ∈ gone ↔ ∃ top ∈ pending, forest.Under other top := by
  induction course with
  | done linked => simp
  | @next forest last id node cell pending gone payloads linked distinct found looked rest ih =>
    have below := childrenOf_of_some found
    have lower (top : NodeId) (member : top ∈ node.children.reverse ++ pending) : top ≠ id := by
      rintro rfl
      rcases List.mem_append.mp member with child | later
      · exact linked.not_listed top (below ▸ List.mem_reverse.mp child)
      · exact (List.nodup_cons.mp distinct).1 later
    have own : forest.Under other id ↔ other = id ∨ ∃ child ∈ node.children, forest.Under other child
        := by
      rw [Under, ReflTransGen.cases_tail_iff, ← below]
      simp only [eq_comm, and_comm]
    rw [List.mem_cons, ih, List.exists_mem_cons_iff, own, or_assoc]
    refine or_congr_right ?_
    constructor
    · rintro ⟨top, member, under⟩
      have under' := (under_vacate linked found looked (lower top member)).mp under
      rcases List.mem_append.mp member with child | later
      · exact .inl ⟨top, List.mem_reverse.mp child, under'⟩
      · exact .inr ⟨top, later, under'⟩
    · have back (top : NodeId) (member : top ∈ node.children.reverse ++ pending)
          (under : forest.Under other top) :
          ∃ top ∈ node.children.reverse ++ pending, (forest.vacate id.index cell).Under other top :=
        ⟨top, member, (under_vacate linked found looked (lower top member)).mpr under⟩
      rintro (⟨top, child, under⟩ | ⟨top, later, under⟩)
      · exact back top (List.mem_append_left _ (List.mem_reverse.mpr child)) under
      · exact back top (List.mem_append_right _ later) under

end Uprooting

/-- Unlinked from what is above it, a node keeps its subtree. -/
theorem Linked.under_remove (linked : forest.Linked []) {between : Forest α}
    (removed : forest.remove id = .ok between) :
    between.Under other id ↔ forest.Within other id := by
  obtain ⟨stays, -, parents⟩ := linked.remove removed
  have listed (child parent : NodeId) : child ∈ between.childrenOf parent ↔
      child ≠ id ∧ forest.parentOf child = some parent := by
    rw [stays.linked, parents]
    by_cases same : child = id <;> simp [same]
  constructor
  · exact ReflTransGen.mono (fun child parent member => ((listed child parent).mp member).2) other id
  · intro within
    induction within using ReflTransGen.head_induction_on with
    | refl => exact .refl
    | @head child parent link above ih =>
      by_cases same : child = id
      · rw [same]
        exact .refl
      · exact .head ((listed child parent).mpr ⟨same, link⟩) ih

/-- Behind its removal from its parent, destroying a node empties the cells of its subtree. -/
theorem Linked.destroy_course (linked : forest.Linked []) {between : Forest α}
    (removed : forest.remove id = .ok between) :
    ∃ gone payloads last, Uprooting between [id] gone payloads last ∧
      forest.destroy id = .ok (payloads, last) ∧
      (∀ more, Forest.uproot (between.links + 1 + more) [id] between = (payloads, last)) ∧
      ∀ other, other ∈ gone ↔ forest.Within other id := by
  obtain ⟨stays, here, parents⟩ := linked.remove removed
  have loose := stays.loosen ((parents id).trans (if_pos rfl))
  obtain ⟨gone, payloads, last, course, ran⟩ := loose.uprooting (List.nodup_singleton id)
    (List.forall_mem_singleton.mpr here) (Nat.le_of_eq (Nat.add_comm 1 between.links))
  refine ⟨gone, payloads, last, course, ?_, ran, fun other => ?_⟩
  · simp only [Forest.destroy, removed, bind, Except.bind]
    exact congrArg Except.ok (ran 0)
  · rw [course.mem_gone, ← linked.under_remove removed]
    simp

end ChangeWatch.Forest
