import ChangeWatch.Proofs.Forest.Growth

/-!
The way up from a node to its root. It passes nodes of different cells, so that whoever climbs it finds
every node on it and is at the root before there are no more cells.
-/
namespace ChangeWatch.Forest

/-- The nodes from a handle up to a root, the lowest first. -/
inductive Ascent (forest : Forest α) : Option NodeId → List NodeId → Prop where
  | top : Ascent forest none []
  | step {id : NodeId} {node : Node α} {above : List NodeId}
      (found : forest.node? id = some node) (rest : Ascent forest node.parent above) :
      Ascent forest (some id) (id :: above)

variable {forest : Forest α} {id parent child root : NodeId} {start : Option NodeId}
  {path path' : List NodeId}

/-- The nodes passed so far lie below the one reached and have cells of their own. -/
theorem Linked.exists_ascent_behind (linked : forest.Linked [])
    (present : forest.contains id = true) (passed : List NodeId) (distinct : passed.Nodup)
    (below : ∀ lower ∈ passed, forest.Below lower id) {rounds : Nat}
    (enough : forest.cells.length ≤ rounds + passed.length) :
    ∃ path, forest.Ascent (some id) path ∧ path.length ≤ rounds := by
  have fresh : (id :: passed).Nodup :=
    List.nodup_cons.mpr ⟨fun member => linked.acyclic id (below id member), distinct⟩
  induction rounds generalizing id passed with
  | zero =>
    have inside : ∀ lower ∈ id :: passed, forest.contains lower = true := by
      refine List.forall_mem_cons.mpr ⟨present, fun lower member => ?_⟩
      obtain ⟨parent, link, -⟩ := below_iff.mp (below lower member)
      exact contains_of_parentOf link
    have few := length_le_cells fresh inside
    rw [List.length_cons] at few
    omega
  | succ rounds ih =>
    obtain ⟨node, found⟩ := contains_iff.mp present
    have above := parentOf_of_some found
    cases link : node.parent with
    | none =>
      refine ⟨[id], .step found ?_, by simp⟩
      rw [link]
      exact .top
    | some parent =>
      rw [link] at above
      have listed := (linked.linked parent id).mpr ⟨List.not_mem_nil, above⟩
      have higher : ∀ lower ∈ id :: passed, forest.Below lower parent :=
        List.forall_mem_cons.mpr
          ⟨.single above, fun lower member => .tail (below lower member) above⟩
      obtain ⟨path, ascent, short⟩ := ih (contains_of_childrenOf listed) (id :: passed) fresh
        higher (by rw [List.length_cons]; omega)
        (List.nodup_cons.mpr ⟨fun member => linked.acyclic parent (higher parent member), fresh⟩)
      refine ⟨id :: path, .step found ?_, Nat.succ_le_succ short⟩
      rw [link]
      exact ascent

theorem Linked.exists_ascent (linked : forest.Linked []) (present : forest.contains id = true) :
    ∃ path, forest.Ascent (some id) path ∧ path.length ≤ forest.cells.length :=
  linked.exists_ascent_behind present [] List.nodup_nil (fun _ member => by cases member)
    (Nat.le_add_right _ _)

/-- There is one way up. -/
theorem Ascent.unique (first : forest.Ascent start path) (second : forest.Ascent start path') :
    path = path' := by
  induction first generalizing path' with
  | top =>
    cases second
    rfl
  | step found _ ih =>
    cases second with
    | step found' rest =>
      cases found.symm.trans found'
      rw [ih rest]

theorem Ascent.contains (ascent : forest.Ascent start path) :
    ∀ id ∈ path, forest.contains id = true := by
  induction ascent with
  | top => exact fun _ member => by cases member
  | step found _ ih => exact List.forall_mem_cons.mpr ⟨contains_iff.mpr ⟨_, found⟩, ih⟩

/-- A way up that goes on ends where the rest of it ends. -/
theorem Ascent.getLast?_cons (rest : forest.Ascent (some parent) path) (id : NodeId) :
    (id :: path).getLast? = path.getLast? := by
  cases rest
  exact List.getLast?_cons_cons

/-- A way up ends at a node without a parent. -/
theorem Ascent.parentOf_last (ascent : forest.Ascent start path) (last : path.getLast? = some root) :
    forest.parentOf root = none := by
  induction ascent with
  | top => cases last
  | @step id node above found rest ih =>
    cases link : node.parent with
    | none =>
      rw [link] at rest
      cases rest
      obtain rfl : id = root := Option.some.inj last
      rw [parentOf_of_some found, link]
    | some parent =>
      rw [link] at rest
      exact ih ((rest.getLast?_cons id).symm.trans last)

/-- A climb to the root refuses the nodes that it meets. -/
theorem Ascent.refuteAncestor (ascent : forest.Ascent start path) (refusal : ForestError)
    (child : NodeId) {rounds : Nat} (enough : path.length ≤ rounds) :
    forest.refuteAncestor refusal child rounds start =
      if child ∈ path then .error refusal else .ok () := by
  induction ascent generalizing rounds with
  | top => cases rounds <;> rfl
  | @step id node above found rest ih =>
    cases rounds with
    | zero => cases enough
    | succ rounds =>
      have further := ih (Nat.le_of_succ_le_succ enough)
      rw [Forest.refuteAncestor]
      by_cases same : id = child
      · simp [same]
      · simp only [if_neg same, node_eq_ok.mpr found, further, List.mem_cons, Ne.symm same,
          false_or]

/-- More rounds than there are cells and one lead no climb any further. -/
theorem Linked.refuteAncestor_rounds (linked : forest.Linked []) (refusal : ForestError)
    (parent child : NodeId) (more : Nat) :
    forest.refuteAncestor refusal child (forest.cells.length + 1 + more) (some parent) =
      forest.refuteAncestor refusal child (forest.cells.length + 1) (some parent) := by
  cases present : forest.node? parent with
  | none =>
    by_cases same : parent = child
    · simp [Nat.add_right_comm _ 1, Forest.refuteAncestor, same]
    · rw [Nat.add_right_comm, refuteAncestor_of_absent present same,
        refuteAncestor_of_absent present same]
  | some node =>
    obtain ⟨path, ascent, short⟩ := linked.exists_ascent (contains_iff.mpr ⟨node, present⟩)
    rw [ascent.refuteAncestor refusal child (by omega),
      ascent.refuteAncestor refusal child (by omega)]

end ChangeWatch.Forest
