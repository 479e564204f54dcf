import ChangeWatch.Proofs.Forest.Removal

/-!
The payloads of a forest. A change of one node changes one payload, links have none, a new node brings
its own, and destroyed nodes give theirs back.
-/
namespace ChangeWatch.Forest

variable {forest next : Forest α} {id other parent child : NodeId} {node : Node α}

def payloadOf (forest : Forest α) (id : NodeId) : Option α :=
  (forest.node? id).map Node.payload

theorem contains_of_payloadOf {payload : α} (held : forest.payloadOf id = some payload) :
    forest.contains id = true := by
  obtain ⟨node, found, -⟩ := Option.map_eq_some_iff.mp held
  exact contains_iff.mpr ⟨node, found⟩

/-- What is there stays when a new node comes. -/
theorem payloadOf_insert_of_contains (linked : forest.Linked []) (present : forest.contains id = true)
    (payload : α) : (forest.insert payload).2.payloadOf id = forest.payloadOf id := by
  have old : id ≠ (forest.insert payload).1 := by
    rintro rfl
    rw [contains, not_contains_insert linked payload] at present
    cases present
  rw [payloadOf, node?_insert linked, if_neg old]
  rfl

theorem payloads_eq (forest : Forest α) :
    forest.payloads = forest.cells.filterMap fun cell => cell.node.map Node.payload := rfl

theorem payloadOf_mem {payload : α} (held : forest.payloadOf id = some payload) :
    payload ∈ forest.payloads := by
  obtain ⟨node, looked, rfl⟩ := Option.map_eq_some_iff.mp held
  obtain ⟨cell, there, -, full⟩ := node?_eq_some.mp looked
  refine List.mem_filterMap.mpr ⟨cell, List.mem_of_getElem? there, ?_⟩
  rw [full]
  rfl

/-- The payload of a node among all others, and what becomes of them when the cell changes. -/
theorem payloads_split {index : Nat} {cell : Cell α} (looked : forest.cells[index]? = some cell) :
    ∃ left right, forest.payloads = left ++ ((cell.node.map Node.payload).toList ++ right) ∧
      ∀ cell' free, ({ cells := forest.cells.set index cell', free } : Forest α).payloads =
        left ++ ((cell'.node.map Node.payload).toList ++ right) := by
  obtain ⟨bound, rfl⟩ := List.getElem?_eq_some_iff.mp looked
  have single (cell : Cell α) : [cell].filterMap (fun cell => cell.node.map Node.payload) =
      (cell.node.map Node.payload).toList := by
    cases held : cell.node.map Node.payload with
    | none => exact List.filterMap_cons_none held
    | some payload => exact List.filterMap_cons_some held
  refine ⟨(forest.cells.take index).filterMap fun cell => cell.node.map Node.payload,
    (forest.cells.drop (index + 1)).filterMap fun cell => cell.node.map Node.payload, ?_, ?_⟩
  · rw [← single, ← List.filterMap_append, ← List.filterMap_append, List.singleton_append,
      ← List.drop_eq_getElem_cons bound, List.take_append_drop]
    rfl
  · intro cell' free
    rw [← single, ← List.filterMap_append, ← List.filterMap_append, List.singleton_append,
      payloads_eq]
    simp only [List.set_eq_take_append_cons_drop, if_pos bound]

/-- A change of a node changes its payload among all others. -/
theorem payloads_modify (found : forest.node? id = some node) (f : Node α → Node α) :
    ∃ left right, forest.payloads = left ++ node.payload :: right ∧
      (forest.modify id f).payloads = left ++ (f node).payload :: right := by
  obtain ⟨cell, looked, generation, full⟩ := node?_eq_some.mp found
  obtain ⟨left, right, before, after⟩ := payloads_split looked
  refine ⟨left, right, ?_, ?_⟩
  · rw [before, full]
    rfl
  · have changed := after { cell with node := some (f node) } forest.free
    have cells : forest.cells.modify id.index (fun cell =>
        if cell.generation = id.generation then { cell with node := cell.node.map f } else cell) =
        forest.cells.set id.index { cell with node := some (f node) } := by
      rw [List.modify_eq_set_getElem?, looked]
      simp [generation, full]
    rw [payloads_eq] at changed ⊢
    rw [modify, cells]
    exact changed

theorem payloads_modify_of_same {f : Node α → Node α} (keeps : ∀ node, (f node).payload = node.payload)
    (forest : Forest α) (id : NodeId) : (forest.modify id f).payloads = forest.payloads := by
  have same (cell : Cell α) : ((if cell.generation = id.generation then
      { cell with node := cell.node.map f } else cell).node.map Node.payload) =
      cell.node.map Node.payload := by
    split
    · cases held : cell.node with
      | none => rfl
      | some node => exact congrArg some (keeps node)
    · rfl
  have cells (cells : List (Cell α)) (index : Nat) :
      (cells.modify index fun cell => if cell.generation = id.generation then
        { cell with node := cell.node.map f } else cell).filterMap
          (fun cell => cell.node.map Node.payload) =
        cells.filterMap fun cell => cell.node.map Node.payload := by
    induction cells generalizing index with
    | nil => simp
    | cons cell cells ih =>
      cases index with
      | zero => simp [List.filterMap_cons, same]
      | succ index => simp [List.filterMap_cons, ih]
  exact cells forest.cells id.index

theorem payloadOf_modify_of_same {f : Node α → Node α}
    (keeps : ∀ node, (f node).payload = node.payload) (forest : Forest α) (id : NodeId) :
    (forest.modify id f).payloadOf = forest.payloadOf := by
  funext other
  simp only [payloadOf, node?_modify]
  split
  · cases forest.node? other <;> simp [keeps]
  · rfl

/-- Forests with the same payloads in the same nodes. -/
structure SamePayloads (first second : Forest α) : Prop where
  payloads : second.payloads = first.payloads
  payloadOf : second.payloadOf = first.payloadOf

theorem SamePayloads.trans {last : Forest α} (first : SamePayloads forest next)
    (second : SamePayloads next last) : SamePayloads forest last where
  payloads := second.payloads.trans first.payloads
  payloadOf := second.payloadOf.trans first.payloadOf

theorem samePayloads_modify {f : Node α → Node α} (keeps : ∀ node, (f node).payload = node.payload)
    (forest : Forest α) (id : NodeId) : SamePayloads forest (forest.modify id f) where
  payloads := payloads_modify_of_same keeps forest id
  payloadOf := payloadOf_modify_of_same keeps forest id

theorem samePayloads_addChild (linked : forest.Linked [])
    (added : forest.addChild parent child = .ok next) : SamePayloads forest next := by
  obtain ⟨rfl, -⟩ := (addChild_eq_ok linked parent child).mp added
  exact (samePayloads_modify (fun _ => by rfl) forest parent).trans
    (samePayloads_modify (fun _ => by rfl) _ child)

theorem samePayloads_removeChild (linked : forest.Linked [])
    (removed : forest.removeChild parent child = .ok next) : SamePayloads forest next := by
  obtain ⟨rfl, -⟩ := (removeChild_eq_ok linked parent child).mp removed
  exact (samePayloads_modify (fun _ => by rfl) forest parent).trans
    (samePayloads_modify (fun _ => by rfl) _ child)

theorem samePayloads_remove (linked : forest.Linked []) (removed : forest.remove id = .ok next) :
    SamePayloads forest next := by
  unfold remove at removed
  cases found : forest.node? id with
  | none => simp [Forest.node, found, bind, Except.bind] at removed
  | some node =>
    simp only [node_eq_ok.mpr found, bind, Except.bind] at removed
    cases above : node.parent with
    | none =>
      rw [above] at removed
      cases removed
      exact ⟨rfl, rfl⟩
    | some parent =>
      rw [above] at removed
      exact samePayloads_removeChild linked removed

/-- A new node brings its payload. -/
theorem payloads_insert (linked : forest.Linked []) (payload : α) :
    ∃ left right, forest.payloads = left ++ right ∧
      (forest.insert payload).2.payloads = left ++ payload :: right := by
  rcases linked.insert_cases payload with
    ⟨index, free, cell, -, looked, empty, inserted⟩ | ⟨-, inserted⟩
  · obtain ⟨left, right, before, after⟩ := payloads_split looked
    refine ⟨left, right, ?_, ?_⟩
    · rw [before, empty]
      rfl
    · rw [inserted, after]
      rfl
  · refine ⟨forest.payloads, [], (List.append_nil _).symm, ?_⟩
    rw [inserted, payloads_eq, List.filterMap_append]
    rfl

/-- What destroyed nodes give back: the payloads that are missing behind it, each of another node. -/
structure GivesBack (forest : Forest α) (given : List α) (next : Forest α) : Prop where
  payloads : (given ++ next.payloads).Perm forest.payloads
  nodes : ∃ gone : List (NodeId × α), gone.map Prod.snd = given ∧ (gone.map Prod.fst).Nodup ∧
    (∀ node ∈ gone, forest.payloadOf node.1 = some node.2) ∧
    ∀ id, next.payloadOf id = if id ∈ gone.map Prod.fst then none else forest.payloadOf id

theorem givesBack_vacate {index : Nat} {cell : Cell α} (looked : forest.cells[index]? = some cell)
    (full : cell.node = some node) : GivesBack forest [node.payload] (forest.vacate index cell) := by
  constructor
  · obtain ⟨left, right, before, after⟩ := payloads_split looked
    have emptied := after { generation := cell.generation + 1, node := none } (index :: forest.free)
    change (forest.vacate index cell).payloads = left ++ right at emptied
    rw [before, full, emptied]
    change (node.payload :: (left ++ right)).Perm (left ++ node.payload :: right)
    exact List.perm_middle.symm
  · have found : forest.node? { index, generation := cell.generation } = some node :=
      node?_eq_some.mpr ⟨cell, looked, rfl, full⟩
    refine ⟨[({ index, generation := cell.generation }, node.payload)], rfl, List.nodup_singleton _,
      ?_, ?_⟩
    · intro only member
      cases List.mem_singleton.mp member
      rw [payloadOf, found, Option.map_some]
    · intro other
      rw [payloadOf, node?_vacate looked (contains_iff.mpr ⟨node, found⟩)]
      simp only [List.map_cons, List.map_nil, List.mem_singleton]
      split
      · rfl
      · rfl

theorem GivesBack.trans {given more : List α} {last : Forest α} (first : GivesBack forest given next)
    (second : GivesBack next more last) : GivesBack forest (given ++ more) last := by
  constructor
  · rw [List.append_assoc]
    exact (second.payloads.append_left given).trans first.payloads
  · obtain ⟨gone, rfl, distinct, held, left⟩ := first.nodes
    obtain ⟨later, rfl, distinct', held', left'⟩ := second.nodes
    have there (node : NodeId × α) (member : node ∈ later) :
        node.1 ∉ gone.map Prod.fst ∧ forest.payloadOf node.1 = some node.2 := by
      have looked := held' node member
      rw [left] at looked
      split at looked
      · cases looked
      · exact ⟨‹_›, looked⟩
    refine ⟨gone ++ later, List.map_append, ?_, ?_, ?_⟩
    · rw [List.map_append]
      refine distinct.append distinct' ?_
      intro id before behind
      obtain ⟨node, member, rfl⟩ := List.mem_map.mp behind
      exact (there node member).1 before
    · intro node member
      rcases List.mem_append.mp member with before | behind
      · exact held node before
      · exact (there node behind).2
    · intro id
      rw [left', left, List.map_append]
      simp only [List.mem_append]
      split
      · rw [if_pos (.inr ‹_›)]
      · by_cases before : id ∈ gone.map Prod.fst
        · rw [if_pos before, if_pos (.inl before)]
        · rw [if_neg before, if_neg (not_or.mpr ⟨before, ‹_›⟩)]

theorem givesBack_uproot (steps : Nat) (pending : List NodeId) (forest : Forest α) :
    GivesBack forest (uproot steps pending forest).1 (uproot steps pending forest).2 := by
  have nothing (forest : Forest α) : GivesBack forest [] forest :=
    ⟨.refl _, [], rfl, List.nodup_nil, nofun, fun _ => (if_neg List.not_mem_nil).symm⟩
  induction steps generalizing pending forest with
  | zero => exact nothing forest
  | succ steps ih =>
    cases pending with
    | nil => exact nothing forest
    | cons id pending =>
      cases looked : forest.cells[id.index]? with
      | none =>
        simp only [uproot, looked]
        exact ih pending forest
      | some cell =>
        cases full : cell.node with
        | none =>
          simp only [uproot, looked, full]
          exact ih pending forest
        | some node =>
          simp only [uproot, looked, full]
          exact (givesBack_vacate looked full).trans (ih _ _)

theorem givesBack_destroy (linked : forest.Linked []) {given : List α}
    (destroyed : forest.destroy id = .ok (given, next)) : GivesBack forest given next := by
  unfold destroy at destroyed
  cases removed : forest.remove id with
  | error cause =>
    rw [removed] at destroyed
    cases destroyed
  | ok between =>
    rw [removed] at destroyed
    have outcome := Except.ok.inj destroyed
    have same := samePayloads_remove linked removed
    have back := givesBack_uproot (between.links + 1) [id] between
    rw [outcome] at back
    constructor
    · rw [← same.payloads]
      exact back.payloads
    · rw [← same.payloadOf]
      exact back.nodes

/-- All nodes have payloads with some property. -/
def Every (P : α → Prop) (forest : Forest α) : Prop :=
  ∀ id payload, forest.payloadOf id = some payload → P payload

namespace Every

variable {P : α → Prop}

theorem empty : Every P {} := fun _ _ impossible => by cases impossible

theorem mono {Q : α → Prop} (every : Every P forest) (implied : ∀ payload, P payload → Q payload) :
    Every Q forest :=
  fun id payload held => implied payload (every id payload held)

theorem of_payloads (all : ∀ payload ∈ forest.payloads, P payload) : Every P forest :=
  fun _ payload held => all payload (payloadOf_mem held)

theorem of_some (every : Every P forest) (found : forest.node? id = some node) : P node.payload := by
  refine every id node.payload ?_
  rw [payloadOf, found, Option.map_some]

theorem modify (every : Every P forest) (id : NodeId) {f : Node α → Node α}
    (keeps : ∀ node, forest.node? id = some node → P (f node).payload) :
    Every P (forest.modify id f) := by
  intro other payload held
  obtain ⟨later, looked, rfl⟩ := Option.map_eq_some_iff.mp held
  rw [node?_modify] at looked
  split at looked
  · rename_i same
    subst same
    obtain ⟨node, found, rfl⟩ := Option.map_eq_some_iff.mp looked
    exact keeps node found
  · exact every.of_some looked

theorem of_same (every : Every P forest) (same : SamePayloads forest next) : Every P next :=
  fun id payload held => every id payload (same.payloadOf ▸ held)

theorem insert (every : Every P forest) (linked : forest.Linked []) {payload : α}
    (holds : P payload) : Every P (forest.insert payload).2 := by
  intro other held found
  obtain ⟨node, looked, rfl⟩ := Option.map_eq_some_iff.mp found
  rw [node?_insert linked] at looked
  split at looked
  · cases looked
    exact holds
  · exact every.of_some looked

theorem of_givesBack (every : Every P forest) {given : List α} (back : GivesBack forest given next) :
    Every P next := by
  intro id payload held
  obtain ⟨gone, -, -, -, left⟩ := back.nodes
  rw [left] at held
  split at held
  · cases held
  · exact every id payload held

end Every
end ChangeWatch.Forest
