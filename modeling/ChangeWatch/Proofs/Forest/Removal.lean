import ChangeWatch.Proofs.Forest.Growth

/-!
Unlinking nodes and destroying subtrees. While a subtree is destroyed its pending nodes are loose: the
nodes above them are gone already, and nothing else refers to them. The steps are counted so that none
of them is left.
-/
namespace ChangeWatch.Forest

variable {forest next : Forest α} {id other parent child : NodeId} {node : Node α}

section Unlink

/-- The forest without a link. -/
def detach (forest : Forest α) (parent child : NodeId) : Forest α :=
  (forest.modify parent fun node => { node with children := node.children.erase child }).modify child
    fun node => { node with parent := none }

/-- A child is unlinked from the node that lists it. -/
theorem removeChild_eq_ok (linked : forest.Linked []) (parent child : NodeId) :
    forest.removeChild parent child = .ok next ↔
      next = forest.detach parent child ∧ child ∈ forest.childrenOf parent := by
  cases found : forest.node? child with
  | none =>
    have unlisted : child ∉ forest.childrenOf parent := by
      intro listed
      have present := linked.contains_child listed
      simp [contains, found] at present
    simp [removeChild, node, found, unlisted, bind, Except.bind]
  | some lower =>
    cases present : forest.node? parent with
    | none =>
      have unlisted : child ∉ forest.childrenOf parent := by
        simp [childrenOf, present]
      simp [removeChild, node, found, present, unlisted, bind, Except.bind]
    | some upper =>
      rw [childrenOf_of_some present]
      by_cases listed : child ∈ upper.children
      · simp only [removeChild, node_eq_ok.mpr found, node_eq_ok.mpr present, bind, Except.bind,
          List.contains_iff_mem.mpr listed, listed, if_true, and_true]
        exact ⟨fun same => (Except.ok.inj same).symm, fun same => congrArg Except.ok same.symm⟩
      · have unlisted : upper.children.contains child = false := by
          simpa using listed
        simp [removeChild, node_eq_ok.mpr found, node_eq_ok.mpr present, bind, Except.bind,
          listed, throw, throwThe, MonadExceptOf.throw]

theorem childrenOf_detach (present : forest.contains parent = true) (child id : NodeId) :
    (forest.detach parent child).childrenOf id =
      if id = parent then (forest.childrenOf parent).erase child else forest.childrenOf id := by
  obtain ⟨node, found⟩ := contains_iff.mp present
  unfold detach
  refine (congrFun (childrenOf_modify (fun _ => by rfl) child) id).trans ?_
  rw [childrenOf_modify_of_some found, childrenOf_of_some found]

theorem parentOf_detach (parent : NodeId) (here : forest.contains child = true)
    (below : NodeId) : (forest.detach parent child).parentOf below =
      if below = child then none else forest.parentOf below := by
  rw [← contains_modify forest parent fun node =>
    { node with children := node.children.erase child }] at here
  obtain ⟨node, found⟩ := contains_iff.mp here
  rw [detach, parentOf_modify_of_some found]
  split
  · rfl
  · exact congrFun (parentOf_modify (fun _ => by rfl) parent) below

theorem Linked.removeChild (linked : forest.Linked [])
    (removed : forest.removeChild parent child = .ok next) : next.Linked [] := by
  obtain ⟨rfl, listed⟩ := (removeChild_eq_ok linked parent child).mp removed
  have link : forest.parentOf child = some parent := ((linked.linked parent child).mp listed).2
  have children := childrenOf_detach (contains_of_childrenOf listed) child
  have parents := parentOf_detach parent (contains_of_parentOf link)
  refine ⟨?_, ?_, ?_, linked.freeDistinct, ?_⟩
  · intro upper lower
    have old := linked.linked upper lower
    simp only [List.not_mem_nil, not_false_iff, true_and] at old ⊢
    rw [children, parents]
    by_cases raised : upper = parent
    · subst raised
      rw [if_pos rfl, (linked.distinct upper).mem_erase_iff, old]
      by_cases lowered : lower = child <;> simp [lowered]
    · by_cases lowered : lower = child
      · subst lowered
        have apart : parent ≠ upper := Ne.symm raised
        rw [if_neg raised, if_pos rfl, old, link]
        simp [apart]
      · rw [if_neg raised, if_neg lowered, old]
  · intro id
    rw [children]
    split
    · exact (linked.distinct parent).erase child
    · exact linked.distinct id
  · intro id cycle
    refine linked.acyclic id (cycle.mono fun lower upper link => ?_)
    rw [parents] at link
    split at link
    · cases link
    · exact link
  · intro index
    rw [detach, free_modify, free_modify, vacant_modify, vacant_modify]
    exact linked.free index

/-- A node that is there is unlinked from its parent, which lists it. -/
theorem Linked.remove_of_some (linked : forest.Linked []) (found : forest.node? id = some node) :
    forest.remove id = .ok (node.parent.elim forest fun parent => forest.detach parent id) := by
  simp only [Forest.remove, node_eq_ok.mpr found, bind, Except.bind]
  cases above : node.parent with
  | none => rfl
  | some parent =>
    have link := (parentOf_of_some found).trans above
    have listed := (linked.linked parent id).mpr ⟨List.not_mem_nil, link⟩
    exact (removeChild_eq_ok linked parent id).mpr ⟨rfl, listed⟩

theorem remove_of_none (absent : forest.node? id = none) :
    forest.remove id = .error (.unknown id) := by
  simp [Forest.remove, Forest.node, absent, bind, Except.bind]

/-- After its removal a node is a root. -/
theorem Linked.remove (linked : forest.Linked []) (removed : forest.remove id = .ok next) :
    next.Linked [] ∧ next.contains id = true ∧
      ∀ other, next.parentOf other = if other = id then none else forest.parentOf other := by
  cases found : forest.node? id with
  | none => cases (remove_of_none found).symm.trans removed
  | some node =>
    have here : forest.contains id = true := contains_iff.mpr ⟨node, found⟩
    have link := parentOf_of_some found
    have unlinked := linked.remove_of_some found
    cases above : node.parent with
    | none =>
      rw [above] at unlinked link
      cases unlinked.symm.trans removed
      refine ⟨linked, here, fun other => ?_⟩
      split
      · rename_i same
        rw [same]
        exact link
      · rfl
    | some parent =>
      rw [above] at unlinked link
      cases unlinked.symm.trans removed
      have listed := (linked.linked parent id).mpr ⟨List.not_mem_nil, link⟩
      refine ⟨linked.removeChild ((removeChild_eq_ok linked parent id).mpr ⟨rfl, listed⟩), ?_,
        parentOf_detach parent here⟩
      simp only [Option.elim, detach, contains_modify]
      exact here

/-- A root is in no list of children. -/
theorem Linked.loosen (linked : forest.Linked []) (root : forest.parentOf id = none) :
    forest.Linked [id] := by
  refine ⟨?_, linked.distinct, linked.acyclic, linked.freeDistinct, linked.free⟩
  intro parent child
  rw [linked.linked parent child, List.mem_singleton]
  constructor
  · rintro ⟨-, link⟩
    refine ⟨?_, link⟩
    rintro rfl
    cases root.symm.trans link
  · rintro ⟨-, link⟩
    exact ⟨List.not_mem_nil, link⟩

end Unlink

section Uproot

/-- The forest without the node of some cell. -/
def vacate (forest : Forest α) (index : Nat) (cell : Cell α) : Forest α where
  cells := forest.cells.set index { generation := cell.generation + 1, node := none }
  free := index :: forest.free

theorem uproot_cons (found : forest.node? id = some node) (steps : Nat) (pending : List NodeId) :
    ∃ cell, forest.cells[id.index]? = some cell ∧ cell.node = some node ∧
      uproot (steps + 1) (id :: pending) forest =
        let rest := uproot steps (node.children.reverse ++ pending) (forest.vacate id.index cell)
        (node.payload :: rest.1, rest.2) := by
  obtain ⟨cell, looked, -, full⟩ := node?_eq_some.mp found
  refine ⟨cell, looked, full, ?_⟩
  simp only [uproot, looked, full]
  rfl

theorem links_set {cells : List (Cell α)} {index : Nat} {cell emptied : Cell α}
    (nothing : below emptied = []) (held : cells[index]? = some cell) :
    (cells.set index emptied).foldr (fun cell count => (below cell).length + count) 0 +
      (below cell).length =
    cells.foldr (fun cell count => (below cell).length + count) 0 := by
  induction cells generalizing index with
  | nil => cases held
  | cons first cells ih =>
    cases index with
    | zero =>
      cases held
      simp only [List.set_cons_zero, List.foldr_cons, nothing, List.length_nil]
      omega
    | succ index =>
      have rest := ih held
      simp only [List.set_cons_succ, List.foldr_cons]
      omega

variable {cell : Cell α} (looked : forest.cells[id.index]? = some cell)
include looked

/-- With a node, the links to its children go. -/
theorem links_vacate (found : forest.node? id = some node) :
    (forest.vacate id.index cell).links + node.children.length = forest.links := by
  obtain ⟨cell', looked', -, full⟩ := node?_eq_some.mp found
  cases looked.symm.trans looked'
  have size : (below cell).length = node.children.length := by
    rw [below, full]
    rfl
  rw [← size]
  exact links_set
    (show below ({ generation := cell.generation + 1, node := none } : Cell α) = [] from rfl) looked

theorem node?_vacate (here : forest.contains id = true) (other : NodeId) :
    (forest.vacate id.index cell).node? other =
      if other = id then none else forest.node? other := by
  obtain ⟨bound, -⟩ := List.getElem?_eq_some_iff.mp looked
  by_cases same : other.index = id.index
  · have emptied : (forest.vacate id.index cell).node? other = none := by
      simp [node?, vacate, same, bound]
    rw [emptied]
    split
    · rfl
    · rename_i apart
      cases found : forest.node? other with
      | none => rfl
      | some node =>
        have there : forest.contains other = true := contains_iff.mpr ⟨node, found⟩
        exact absurd (eq_of_index there here same) apart
  · have apart : other ≠ id := fun equal => same (congrArg NodeId.index equal)
    simp [node?, vacate, Ne.symm same, apart]

theorem vacant_vacate (index : Nat) :
    (forest.vacate id.index cell).Vacant index ↔ index = id.index ∨ forest.Vacant index := by
  obtain ⟨bound, -⟩ := List.getElem?_eq_some_iff.mp looked
  simp only [Vacant, vacate, List.getElem?_set]
  by_cases here : id.index = index
  · subst here
    simp [bound]
  · simp [here, Ne.symm here]

/-- Emptying the cell of a pending node makes its children pending in its place. -/
theorem Linked.vacate {pending : List NodeId} (linked : forest.Linked (id :: pending))
    (found : forest.node? id = some node) (distinct : (id :: pending).Nodup)
    (present : ∀ other ∈ pending, forest.contains other = true) :
    (forest.vacate id.index cell).Linked (node.children.reverse ++ pending) ∧
      (node.children.reverse ++ pending).Nodup ∧
      ∀ other ∈ node.children.reverse ++ pending,
        (forest.vacate id.index cell).contains other = true := by
  have here : forest.contains id = true := contains_iff.mpr ⟨node, found⟩
  have below := childrenOf_of_some found
  have lookup := node?_vacate looked here
  have parents (lower : NodeId) : (forest.vacate id.index cell).parentOf lower =
      if lower = id then none else forest.parentOf lower := by
    simp only [parentOf, lookup]
    split <;> rfl
  have children (upper : NodeId) : (forest.vacate id.index cell).childrenOf upper =
      if upper = id then [] else forest.childrenOf upper := by
    simp only [childrenOf, lookup]
    split <;> rfl
  have survives (other : NodeId) (apart : other ≠ id) (there : forest.contains other = true) :
      (forest.vacate id.index cell).contains other = true := by
    rw [contains, lookup, if_neg apart]
    exact there
  obtain ⟨unlisted, distinct⟩ := List.nodup_cons.mp distinct
  refine ⟨⟨?_, ?_, ?_, ?_, ?_⟩, ?_, ?_⟩
  · intro upper lower
    have old := linked.linked upper lower
    have ofId := linked.linked id lower
    rw [below] at ofId
    simp only [List.mem_cons, not_or, List.mem_append, List.mem_reverse] at old ofId ⊢
    rw [children, parents]
    by_cases raised : upper = id
    · subst raised
      by_cases lowered : lower = upper
      · simp [lowered]
      · simp only [if_true, List.not_mem_nil, if_neg lowered, false_iff]
        rintro ⟨⟨notChild, notPending⟩, link⟩
        exact notChild (ofId.mpr ⟨⟨lowered, notPending⟩, link⟩)
    · by_cases lowered : lower = id
      · subst lowered
        simp [raised, old]
      · rw [if_neg raised, if_neg lowered, old]
        constructor
        · rintro ⟨⟨-, notPending⟩, link⟩
          refine ⟨⟨?_, notPending⟩, link⟩
          intro child
          have other := (ofId.mp child).2
          exact raised (Option.some.inj (link.symm.trans other))
        · rintro ⟨⟨-, notPending⟩, link⟩
          exact ⟨⟨lowered, notPending⟩, link⟩
  · intro upper
    rw [children]
    split
    · exact List.nodup_nil
    · exact linked.distinct upper
  · intro lower cycle
    refine linked.acyclic lower (cycle.mono fun lower upper link => ?_)
    rw [parents] at link
    split at link
    · cases link
    · exact link
  · refine List.nodup_cons.mpr ⟨?_, linked.freeDistinct⟩
    intro listed
    exact not_vacant here ((linked.free id.index).mp listed)
  · intro index
    rw [vacant_vacate looked, ← linked.free]
    exact List.mem_cons
  · refine List.Nodup.append ?_ distinct ?_
    · exact List.nodup_reverse.mpr (below ▸ linked.distinct id)
    · intro lower child pendingToo
      rw [List.mem_reverse, ← below] at child
      have loose := ((linked.linked id lower).mp child).1
      exact loose (List.mem_cons_of_mem id pendingToo)
  · intro other member
    rcases List.mem_append.mp member with child | later
    · rw [List.mem_reverse, ← below] at child
      exact survives other (linked.ne_of_child child) (linked.contains_child child)
    · have apart : other ≠ id := by
        rintro rfl
        exact unlisted later
      exact survives other apart (present other later)

omit looked in
/-- Every node costs a step, and every link adds a pending node once. -/
theorem Linked.uproot {pending : List NodeId} (linked : forest.Linked pending)
    (distinct : pending.Nodup) (present : ∀ other ∈ pending, forest.contains other = true)
    {steps : Nat} (enough : pending.length + forest.links ≤ steps) :
    (Forest.uproot steps pending forest).2.Linked [] := by
  induction steps generalizing forest pending with
  | zero =>
    cases pending with
    | nil => exact linked
    | cons id pending =>
      rw [List.length_cons] at enough
      omega
  | succ steps ih =>
    cases pending with
    | nil => exact linked
    | cons id pending =>
      obtain ⟨here, others⟩ := List.forall_mem_cons.mp present
      obtain ⟨node, found⟩ := contains_iff.mp here
      obtain ⟨cell, looked, -, stepped⟩ := uproot_cons found steps pending
      obtain ⟨linked', distinct', present'⟩ := linked.vacate looked found distinct others
      have fewer := links_vacate looked found
      rw [stepped]
      refine ih linked' distinct' present' ?_
      rw [List.length_append, List.length_reverse]
      rw [List.length_cons] at enough
      omega

end Uproot

theorem Linked.destroy (linked : forest.Linked []) {payloads : List α}
    (destroyed : forest.destroy id = .ok (payloads, next)) : next.Linked [] := by
  unfold Forest.destroy at destroyed
  cases removed : forest.remove id with
  | error cause =>
    rw [removed] at destroyed
    cases destroyed
  | ok between =>
    rw [removed] at destroyed
    obtain ⟨stays, here, parents⟩ := linked.remove removed
    have loose : between.Linked [id] := stays.loosen ((parents id).trans (if_pos rfl))
    have enough : [id].length + between.links ≤ between.links + 1 := by
      rw [List.length_singleton]
      omega
    have same : next = (Forest.uproot (between.links + 1) [id] between).2 :=
      (congrArg Prod.snd (Except.ok.inj destroyed)).symm
    rw [same]
    exact loose.uproot (List.nodup_singleton id) (List.forall_mem_singleton.mpr here) enough

end ChangeWatch.Forest
