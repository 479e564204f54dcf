import ChangeWatch.Proofs.Forest.Links

/-!
What keeps a forest linked: adding nodes, linking and unlinking them, and destroying subtrees. The walk
of a new link to the root of its parent is never cut short, so a link is refused exactly if it would
close a cycle or if one of its ends is not free for it.
-/
namespace ChangeWatch.Forest

variable {forest next : Forest α} {id other parent child : NodeId} {node : Node α}

section Insert

/-- A new node takes the cell that was emptied last, or a cell behind all others. -/
theorem Linked.insert_cases (linked : forest.Linked []) (payload : α) :
    (∃ index free cell, forest.free = index :: free ∧ forest.cells[index]? = some cell ∧
      cell.node = none ∧ forest.insert payload =
        ({ index, generation := cell.generation },
          { cells := forest.cells.set index { cell with node := some { payload } }, free })) ∨
    forest.free = [] ∧ forest.insert payload =
      ({ index := forest.cells.length, generation := 0 },
        { cells := forest.cells ++ [{ generation := 0, node := some { payload } }], free := [] }) := by
  cases listed : forest.free with
  | nil =>
    right
    refine ⟨rfl, ?_⟩
    simp only [insert, listed, insert.append]
  | cons index free =>
    left
    obtain ⟨cell, looked, empty⟩ := (linked.free index).mp (listed ▸ List.mem_cons_self)
    refine ⟨index, free, cell, rfl, looked, empty, ?_⟩
    simp only [insert, listed, looked]

/-- The handle of a new node found nothing before. -/
theorem not_contains_insert (linked : forest.Linked []) (payload : α) :
    forest.node? (forest.insert payload).1 = none := by
  rcases linked.insert_cases payload with
    ⟨index, free, cell, -, looked, empty, inserted⟩ | ⟨-, inserted⟩
  · rw [inserted]
    simp only [node?, looked, if_true, empty]
  · rw [inserted]
    simp only [node?, List.getElem?_eq_none (Nat.le_refl _)]

/-- The handle of a new node finds it, and other handles find what they found before. -/
theorem node?_insert (linked : forest.Linked []) (payload : α) (other : NodeId) :
    (forest.insert payload).2.node? other =
      if other = (forest.insert payload).1 then some { payload } else forest.node? other := by
  rcases linked.insert_cases payload with
    ⟨index, free, cell, -, looked, empty, inserted⟩ | ⟨-, inserted⟩
  · obtain ⟨bound, -⟩ := List.getElem?_eq_some_iff.mp looked
    rw [inserted]
    obtain ⟨place, generation⟩ := other
    by_cases here : index = place
    · subst here
      by_cases current : cell.generation = generation
      · subst current
        simp [node?, bound]
      · have elsewhere : forest.cells[index].generation ≠ generation := by
          rw [List.getElem?_eq_some_iff.mp looked |>.2]
          exact current
        simp [node?, bound, current, Ne.symm current, elsewhere]
    · simp [node?, here, Ne.symm here]
  · rw [inserted]
    obtain ⟨place, generation⟩ := other
    rcases Nat.lt_trichotomy place forest.cells.length with inside | rfl | outside
    · have apart : place ≠ forest.cells.length := Nat.ne_of_lt inside
      simp [node?, List.getElem?_append_left inside, apart]
    · by_cases current : generation = 0
      · simp [node?, current]
      · simp [node?, current, Ne.symm current]
    · have apart : place ≠ forest.cells.length := Nat.ne_of_gt outside
      have beyond : (forest.cells ++ [{ generation := 0, node := some { payload } }])[place]? =
          none := List.getElem?_eq_none (by simpa using Nat.succ_le_of_lt outside)
      have before : forest.cells[place]? = none := List.getElem?_eq_none (Nat.le_of_lt outside)
      simp [node?, beyond, before, apart]

/-- A new node takes the first free cell, if there is one. -/
theorem vacant_insert (linked : forest.Linked []) (payload : α) :
    (forest.insert payload).2.free = forest.free.tail ∧
      ∀ index, (forest.insert payload).2.Vacant index ↔
        forest.Vacant index ∧ index ∉ forest.free.head? := by
  rcases linked.insert_cases payload with
    ⟨index, free, cell, listed, looked, empty, inserted⟩ | ⟨listed, inserted⟩
  · obtain ⟨bound, -⟩ := List.getElem?_eq_some_iff.mp looked
    rw [inserted, listed]
    refine ⟨rfl, fun other => ?_⟩
    by_cases here : index = other
    · subst here
      simp [Vacant, bound]
    · simp [Vacant, here]
  · rw [inserted, listed]
    refine ⟨rfl, fun index => ?_⟩
    simp only [List.head?_nil, Option.not_mem_none, not_false_iff, and_true, Vacant,
      List.getElem?_append]
    split
    · exact Iff.rfl
    · rename_i outside
      rw [List.getElem?_eq_none (Nat.le_of_not_lt outside)]
      cases index - forest.cells.length <;> simp

theorem Linked.insert (linked : forest.Linked []) (payload : α) :
    (forest.insert payload).2.Linked [] := by
  have fresh := not_contains_insert linked payload
  have parents : (forest.insert payload).2.parentOf = forest.parentOf := by
    funext other
    simp only [parentOf, node?_insert linked]
    split
    · rename_i same
      rw [same, fresh]
      rfl
    · rfl
  have children : (forest.insert payload).2.childrenOf = forest.childrenOf := by
    funext other
    simp only [childrenOf, node?_insert linked]
    split
    · rename_i same
      rw [same, fresh]
      rfl
    · rfl
  obtain ⟨free, vacant⟩ := vacant_insert linked payload
  refine ⟨?_, ?_, ?_, ?_, ?_⟩
  · rw [parents, children]
    exact linked.linked
  · rw [children]
    exact linked.distinct
  · intro id below
    exact linked.acyclic id (below.mono fun _ _ link => parents ▸ link)
  · rw [free]
    exact linked.freeDistinct.sublist (List.tail_sublist _)
  · intro index
    have distinct := linked.freeDistinct
    rw [vacant, free, ← linked.free]
    cases listed : forest.free with
    | nil => simp
    | cons first rest =>
      rw [listed, List.nodup_cons] at distinct
      simp only [List.tail_cons, List.head?_cons, Option.mem_def, Option.some.injEq,
        List.mem_cons]
      constructor
      · intro member
        refine ⟨.inr member, ?_⟩
        rintro rfl
        exact distinct.1 member
      · rintro ⟨rfl | member, apart⟩
        · exact absurd rfl apart
        · exact member

end Insert

section Link

/-- The climb from a node to its root passes nodes of different cells, so that it ends before there are
no more cells. The nodes passed so far lie below the one reached. -/
theorem refuteAncestor_eq_ok (linked : forest.Linked []) (refusal : ForestError) (child : NodeId)
    (steps : Nat) (passed : List NodeId) {reached : NodeId}
    (present : forest.contains reached = true)
    (distinct : passed.Nodup) (below : ∀ id ∈ passed, forest.Below id reached)
    (enough : forest.cells.length < steps + passed.length) :
    forest.refuteAncestor refusal child steps (some reached) = .ok () ↔
      child ≠ reached ∧ ¬ forest.Below reached child := by
  induction steps generalizing passed reached with
  | zero =>
    -- All passed nodes would have cells of their own.
    exfalso
    have inside (id : NodeId) (member : id ∈ passed) : forest.contains id = true := by
      obtain ⟨parent, link, -⟩ := below_iff.mp (below id member)
      exact contains_of_parentOf link
    have few := length_le_cells distinct inside
    omega
  | succ steps ih =>
    obtain ⟨node, found⟩ := contains_iff.mp present
    have link := parentOf_of_some found
    rw [refuteAncestor]
    by_cases same : reached = child
    · simp [same]
    · rw [if_neg same, node_eq_ok.mpr found]
      simp only
      cases above : node.parent with
      | none =>
        have root : ¬ forest.Below reached child := by
          intro chain
          obtain ⟨parent, link', -⟩ := below_iff.mp chain
          rw [link, above] at link'
          cases link'
        have ended : forest.refuteAncestor refusal child steps none = .ok () := by
          cases steps <;> rfl
        simp [ended, root, Ne.symm same]
      | some parent =>
        rw [above] at link
        have listed := (linked.linked parent reached).mpr ⟨List.not_mem_nil, link⟩
        have higher : ∀ id ∈ reached :: passed, forest.Below id parent := by
          refine List.forall_mem_cons.mpr ⟨.single link, ?_⟩
          intro id member
          exact .tail (below id member) link
        have distinct' : (reached :: passed).Nodup := by
          refine List.nodup_cons.mpr ⟨?_, distinct⟩
          intro member
          exact linked.acyclic reached (below reached member)
        have enough' : forest.cells.length < steps + (reached :: passed).length := by
          rw [List.length_cons]
          omega
        have rest := ih (reached :: passed) (contains_of_childrenOf listed) distinct' higher enough'
        have further : forest.Below reached child ↔ parent = child ∨ forest.Below parent child := by
          rw [below_iff, link]
          simp
        rw [rest, further]
        simp [Ne.symm same, eq_comm]

/-- The forest with a new link. -/
def attach (forest : Forest α) (parent child : NodeId) : Forest α :=
  (forest.modify parent fun node => { node with children := node.children ++ [child] }).modify child
    fun node => { node with parent := some parent }

theorem addChild_of_root (found : forest.node? child = some node) (root : node.parent = none) :
    forest.addChild parent child =
      (forest.refuteAncestor (.wouldCreateCycle parent child) child (forest.cells.length + 1)
        (some parent)).map fun _ => forest.attach parent child := by
  simp only [addChild, node_eq_ok.mpr found, root, bind, Except.bind]
  cases forest.refuteAncestor (.wouldCreateCycle parent child) child (forest.cells.length + 1)
    (some parent) <;> rfl

theorem refuteAncestor_of_absent (absent : forest.node? parent = none) (apart : parent ≠ child)
    (refusal : ForestError) (steps : Nat) :
    forest.refuteAncestor refusal child (steps + 1) (some parent) = .error (.unknown parent) := by
  simp only [refuteAncestor, if_neg apart, Forest.node, absent]

/-- A link is made between nodes that are there, if the lower one is a root and the other one does
not lie below it. -/
theorem addChild_eq_ok (linked : forest.Linked []) (parent child : NodeId) :
    forest.addChild parent child = .ok next ↔
      next = forest.attach parent child ∧ forest.contains parent = true ∧
        forest.contains child = true ∧ forest.parentOf child = none ∧ child ≠ parent ∧
        ¬ forest.Below parent child := by
  cases found : forest.node? child with
  | none => simp [addChild, node, contains, found, bind, Except.bind]
  | some node =>
    have here : forest.contains child = true := contains_iff.mpr ⟨node, found⟩
    rw [parentOf_of_some found]
    cases root : node.parent with
    | some current =>
      simp [addChild, node_eq_ok.mpr found, root, bind, Except.bind, throw, throwThe,
        MonadExceptOf.throw]
    | none =>
      rw [addChild_of_root found root]
      cases present : forest.node? parent with
      | none =>
        have apart : parent ≠ child := by
          rintro rfl
          cases present.symm.trans found
        rw [refuteAncestor_of_absent present apart]
        simp [Except.map, contains, present]
      | some upper =>
        have there : forest.contains parent = true := contains_iff.mpr ⟨upper, present⟩
        have climb := refuteAncestor_eq_ok linked (.wouldCreateCycle parent child) child
          (forest.cells.length + 1) [] there List.nodup_nil
          (fun _ member => absurd member List.not_mem_nil) (by simp)
        simp only [here, there, true_and, ← climb]
        cases forest.refuteAncestor (.wouldCreateCycle parent child) child
            (forest.cells.length + 1) (some parent) with
        | error cause => simp [Except.map]
        | ok done => simp [Except.map, eq_comm]

theorem parentOf_attach (parent : NodeId) (here : forest.contains child = true) (below : NodeId) :
    (forest.attach parent child).parentOf below =
      if below = child then some parent else forest.parentOf below := by
  rw [← contains_modify forest parent fun node => { node with children := node.children ++ [child] }]
    at here
  obtain ⟨node, found⟩ := contains_iff.mp here
  rw [attach, parentOf_modify_of_some found]
  split
  · rfl
  · exact congrFun (parentOf_modify (fun _ => by rfl) parent) below

theorem childrenOf_attach (present : forest.contains parent = true) (child id : NodeId) :
    (forest.attach parent child).childrenOf id =
      if id = parent then forest.childrenOf parent ++ [child] else forest.childrenOf id := by
  obtain ⟨node, found⟩ := contains_iff.mp present
  unfold attach
  refine (congrFun (childrenOf_modify (fun _ => by rfl) child) id).trans ?_
  rw [childrenOf_modify_of_some found, childrenOf_of_some found]

theorem Linked.addChild (linked : forest.Linked [])
    (added : forest.addChild parent child = .ok next) : next.Linked [] := by
  obtain ⟨rfl, present, here, root, apart, above⟩ := (addChild_eq_ok linked parent child).mp added
  have parents := parentOf_attach parent here
  have children := childrenOf_attach present child
  have orphan (id : NodeId) : child ∉ forest.childrenOf id := by
    intro listed
    have link := ((linked.linked id child).mp listed).2
    cases root.symm.trans link
  refine ⟨?_, ?_, ?_, linked.freeDistinct, ?_⟩
  · intro upper lower
    have old := linked.linked upper lower
    simp only [List.not_mem_nil, not_false_iff, true_and] at old ⊢
    rw [parents, children]
    by_cases lowered : lower = child
    · subst lowered
      by_cases raised : upper = parent
      · simp [raised]
      · simp [raised, Ne.symm raised, orphan upper]
    · by_cases raised : upper = parent
      · subst raised
        simp [lowered, old]
      · simp [lowered, raised, old]
  · intro id
    rw [children]
    split
    · have alone : child ∉ forest.childrenOf parent := orphan parent
      exact (linked.distinct parent).append (List.nodup_singleton child) (by simpa using alone)
    · exact linked.distinct id
  · intro id cycle
    have more (lower upper : NodeId)
        (link : (forest.attach parent child).parentOf lower = some upper) :
        forest.parentOf lower = some upper ∨ lower = child ∧ upper = parent := by
      rw [parents] at link
      split at link
      · rename_i same
        exact .inr ⟨same, (Option.some.inj link).symm⟩
      · exact .inl link
    rcases cycle.of_link more with old | ⟨down, up⟩
    · exact linked.acyclic id old
    · -- The new link closes a chain from the parent up to the child.
      rcases up with rfl | up
      · rcases down with rfl | down
        · exact apart rfl
        · exact above down
      · rcases down with rfl | down
        · exact above up
        · exact above (up.trans down)
  · intro index
    rw [attach, free_modify, free_modify, vacant_modify, vacant_modify]
    exact linked.free index

end Link
end ChangeWatch.Forest
