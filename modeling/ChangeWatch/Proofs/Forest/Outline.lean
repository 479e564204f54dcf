import ChangeWatch.Proofs.Forest.Uprooting

/-!
The outline of a forest: the generation of every cell and whether there is a node in it. The outline
says which handles find a node. Changes of nodes keep it, a new node fills one cell of it, and a
destroyed node leaves its cell empty, in the next generation.
-/
namespace ChangeWatch.Forest

def outline (forest : Forest α) : List (UInt32 × Bool) :=
  forest.cells.map fun cell => (cell.generation, cell.node.isSome)

/-- There is a node in the cell at an index. -/
def full (forest : Forest α) (index : Nat) : Bool := forest.outline[index]?.any Prod.snd

variable {forest next last : Forest α} {id parent child : NodeId} {index : Nat}

theorem outline_getElem? (forest : Forest α) (index : Nat) : forest.outline[index]? =
    forest.cells[index]?.map fun cell => (cell.generation, cell.node.isSome) :=
  List.getElem?_map

theorem contains_iff_outline :
    forest.contains id = true ↔ forest.outline[id.index]? = some (id.generation, true) := by
  rw [contains_iff, outline_getElem?]
  constructor
  · rintro ⟨node, found⟩
    obtain ⟨cell, looked, generation, held⟩ := node?_eq_some.mp found
    rw [looked, ← generation, Option.map_some, held]
    rfl
  · intro drawn
    obtain ⟨cell, looked, same⟩ := Option.map_eq_some_iff.mp drawn
    obtain ⟨generation, held⟩ := Prod.mk.inj same
    obtain ⟨node, held⟩ := Option.isSome_iff_exists.mp held
    exact ⟨node, node?_eq_some.mpr ⟨cell, looked, generation, held⟩⟩

theorem full_of_outline {generation : UInt32} {held : Bool}
    (drawn : forest.outline[index]? = some (generation, held)) : forest.full index = held := by
  rw [full, drawn]
  rfl

theorem full_of_contains (present : forest.contains id = true) : forest.full id.index = true :=
  full_of_outline (contains_iff_outline.mp present)

theorem vacant_iff_outline :
    forest.Vacant index ↔ ∃ generation, forest.outline[index]? = some (generation, false) := by
  simp only [Vacant, outline_getElem?, Option.map_eq_some_iff, Prod.mk.injEq,
    Option.isSome_eq_false_iff, Option.isNone_iff_eq_none]
  constructor
  · rintro ⟨cell, looked, bare⟩
    exact ⟨cell.generation, cell, looked, rfl, bare⟩
  · rintro ⟨_, cell, looked, -, bare⟩
    exact ⟨cell, looked, bare⟩

theorem outline_modify (forest : Forest α) (id : NodeId) (f : Node α → Node α) :
    (forest.modify id f).outline = forest.outline := by
  refine List.ext_getElem? fun index => ?_
  simp only [outline_getElem?, modify, List.getElem?_modify, Option.map_eq_map, Option.map_map]
  refine congrArg (fun view => Option.map view forest.cells[index]?) (funext fun cell => ?_)
  by_cases here : id.index = index
  · by_cases current : cell.generation = id.generation <;> simp [here, current]
  · simp [here]

theorem outline_addChild (linked : forest.Linked []) (added : forest.addChild parent child = .ok next) :
    next.outline = forest.outline := by
  obtain ⟨rfl, -⟩ := (addChild_eq_ok linked parent child).mp added
  exact (outline_modify _ _ _).trans (outline_modify _ _ _)

theorem outline_detach (forest : Forest α) (parent child : NodeId) :
    (forest.detach parent child).outline = forest.outline :=
  (outline_modify _ _ _).trans (outline_modify _ _ _)

theorem outline_removeChild (linked : forest.Linked [])
    (removed : forest.removeChild parent child = .ok next) : next.outline = forest.outline := by
  obtain ⟨rfl, -⟩ := (removeChild_eq_ok linked parent child).mp removed
  exact outline_detach forest parent child

theorem outline_remove (linked : forest.Linked []) (removed : forest.remove id = .ok next) :
    next.outline = forest.outline := by
  cases found : forest.node? id with
  | none => cases (remove_of_none found).symm.trans removed
  | some node =>
    cases (linked.remove_of_some found).symm.trans removed
    cases node.parent with
    | none => rfl
    | some parent => exact outline_detach forest parent id

/-- A new node is put into an empty cell, or into a cell of its own behind all others. -/
theorem outline_insert (linked : forest.Linked []) (payload : α) :
    (forest.outline[(forest.insert payload).1.index]? =
          some ((forest.insert payload).1.generation, false) ∨
        forest.outline[(forest.insert payload).1.index]? = none ∧
          (forest.insert payload).1.generation = 0) ∧
      ∀ index, (forest.insert payload).2.outline[index]? =
        if index = (forest.insert payload).1.index then
          some ((forest.insert payload).1.generation, true)
        else forest.outline[index]? := by
  rcases linked.insert_cases payload with
    ⟨place, free, cell, -, looked, empty, inserted⟩ | ⟨-, inserted⟩
  · rw [inserted]
    obtain ⟨bound, -⟩ := List.getElem?_eq_some_iff.mp looked
    refine ⟨.inl ?_, fun index => ?_⟩
    · rw [outline_getElem?, looked, Option.map_some, empty]
      rfl
    · rw [outline_getElem?, outline_getElem?]
      by_cases here : place = index
      · subst here
        simp [bound]
      · simp [here, Ne.symm here]
  · rw [inserted]
    have length : forest.outline.length = forest.cells.length := List.length_map _
    refine ⟨.inr ⟨?_, rfl⟩, fun index => ?_⟩
    · exact List.getElem?_eq_none (Nat.le_of_eq length)
    · rw [outline_getElem?, outline_getElem?]
      rcases Nat.lt_trichotomy index forest.cells.length with inside | rfl | outside
      · simp [List.getElem?_append_left inside, Nat.ne_of_lt inside]
      · simp
      · rw [if_neg (Nat.ne_of_gt outside), List.getElem?_eq_none (Nat.le_of_lt outside),
          List.getElem?_eq_none]
        rw [List.length_append, List.length_singleton]
        omega

namespace Uprooting

variable {pending gone : List NodeId} {payloads : List α}

theorem contains (course : Uprooting forest pending gone payloads last) :
    ∀ id ∈ gone, forest.contains id = true := by
  induction course with
  | done linked => exact fun id member => (List.not_mem_nil member).elim
  | @next forest last id node cell pending gone payloads linked distinct found looked rest ih =>
    have here : forest.contains id = true := contains_iff.mpr ⟨node, found⟩
    refine List.forall_mem_cons.mpr ⟨here, fun other member => ?_⟩
    have there := ih other member
    rw [Forest.contains, node?_vacate looked here] at there
    split at there
    · cases there
    · exact there

/-- The cells of the nodes that are gone are empty, in the next generation, and all other cells are as
they were. -/
theorem outline (course : Uprooting forest pending gone payloads last) :
    (∀ id ∈ gone, last.outline[id.index]? = some (id.generation + 1, false)) ∧
      ∀ index, (∀ id ∈ gone, id.index ≠ index) → last.outline[index]? = forest.outline[index]? := by
  induction course with
  | done linked => exact ⟨fun id member => (List.not_mem_nil member).elim, fun _ _ => rfl⟩
  | @next forest last id node cell pending gone payloads linked distinct found looked rest ih =>
    obtain ⟨emptied, kept⟩ := ih
    obtain ⟨cell', looked', generation, -⟩ := node?_eq_some.mp found
    cases looked.symm.trans looked'
    obtain ⟨bound, -⟩ := List.getElem?_eq_some_iff.mp looked
    -- Nothing is found in a cell once it is empty, so no cell is emptied twice.
    have once : ∀ other ∈ gone, other.index ≠ id.index := by
      intro other member same
      exact not_vacant (rest.contains other member)
        ((vacant_vacate looked other.index).mpr (.inl same))
    have vacated (index : Nat) : (forest.vacate id.index cell).outline[index]? =
        if index = id.index then some (id.generation + 1, false) else forest.outline[index]? := by
      rw [outline_getElem?, outline_getElem?]
      by_cases here : id.index = index
      · subst here
        simp [vacate, bound, generation]
      · simp [vacate, here, Ne.symm here]
    refine ⟨List.forall_mem_cons.mpr ⟨?_, emptied⟩, fun index others => ?_⟩
    · rw [kept id.index once, vacated, if_pos rfl]
    · obtain ⟨first, others⟩ := List.forall_mem_cons.mp others
      rw [kept index others, vacated, if_neg (Ne.symm first)]

end Uprooting
end ChangeWatch.Forest
