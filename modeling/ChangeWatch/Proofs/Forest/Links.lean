import ChangeWatch.Forest.Surgery
import ChangeWatch.Proofs.Nodes
import Mathlib.Data.List.Nodup
import Mathlib.Data.List.Perm.Subperm
import Mathlib.Logic.Relation

/-!
The links of a forest as its handles see them: the parent of a node, its children, and who lies below
whom. Every operation is described by what it does to these views. A forest is linked when both ends of
each link know of it and no node lies below itself.
-/
namespace ChangeWatch.Forest

open Relation (TransGen ReflTransGen)

def parentOf (forest : Forest α) (id : NodeId) : Option NodeId :=
  (forest.node? id).bind Node.parent

def childrenOf (forest : Forest α) (id : NodeId) : List NodeId :=
  ((forest.node? id).map Node.children).getD []

/-- A node lies below another one when a chain of parents leads there. -/
def Below (forest : Forest α) : NodeId → NodeId → Prop :=
  TransGen fun child parent => forest.parentOf child = some parent

/-- The cell at an index is there and holds no node. -/
def Vacant (forest : Forest α) (index : Nat) : Prop :=
  ∃ cell, forest.cells[index]? = some cell ∧ cell.node = none

/-- A forest whose links agree, apart from loose nodes, which are in no list of children although they
may still have a parent. -/
structure Linked (forest : Forest α) (loose : List NodeId) : Prop where
  linked : ∀ parent child, child ∈ forest.childrenOf parent ↔
    child ∉ loose ∧ forest.parentOf child = some parent
  distinct : ∀ id, (forest.childrenOf id).Nodup
  acyclic : ∀ id, ¬ forest.Below id id
  freeDistinct : forest.free.Nodup
  free : ∀ index, index ∈ forest.free ↔ forest.Vacant index

variable {forest next : Forest α} {id other parent child : NodeId} {node : Node α}

section Views

theorem contains_iff : forest.contains id = true ↔ ∃ node, forest.node? id = some node :=
  Option.isSome_iff_exists

theorem contains_eq_false : forest.contains id = false ↔ forest.node? id = none := by
  rw [contains, Option.isSome_eq_false_iff, Option.isNone_iff_eq_none]

theorem parentOf_of_some (found : forest.node? id = some node) :
    forest.parentOf id = node.parent := by
  rw [parentOf, found, Option.bind_some]

theorem childrenOf_of_some (found : forest.node? id = some node) :
    forest.childrenOf id = node.children := by
  rw [childrenOf, found, Option.map_some, Option.getD_some]

theorem contains_of_parentOf (linked : forest.parentOf child = some parent) :
    forest.contains child = true := by
  obtain ⟨node, found, -⟩ := Option.bind_eq_some_iff.mp linked
  exact contains_iff.mpr ⟨node, found⟩

theorem contains_of_childrenOf (listed : child ∈ forest.childrenOf parent) :
    forest.contains parent = true := by
  cases found : forest.node? parent with
  | none =>
    rw [childrenOf, found] at listed
    cases listed
  | some node => exact contains_iff.mpr ⟨node, found⟩

/-- A node is found in its cell, under the generation of the cell. -/
theorem node?_eq_some : forest.node? id = some node ↔
    ∃ cell, forest.cells[id.index]? = some cell ∧ cell.generation = id.generation ∧
      cell.node = some node := by
  unfold node?
  cases looked : forest.cells[id.index]? with
  | none => simp
  | some cell =>
    by_cases current : cell.generation = id.generation <;> simp [current]

/-- A cell has one handle at a time. -/
theorem eq_of_index (here : forest.contains id = true) (there : forest.contains other = true)
    (same : id.index = other.index) : id = other := by
  obtain ⟨node, found⟩ := contains_iff.mp here
  obtain ⟨node', found'⟩ := contains_iff.mp there
  obtain ⟨cell, looked, generation, -⟩ := node?_eq_some.mp found
  obtain ⟨cell', looked', generation', -⟩ := node?_eq_some.mp found'
  rw [same, looked'] at looked
  cases looked
  have generations : id.generation = other.generation := generation.symm.trans generation'
  cases id
  cases other
  cases same
  cases generations
  rfl

/-- Different nodes have cells of their own, so there are no more of them than cells. -/
theorem length_le_cells {ids : List NodeId} (distinct : ids.Nodup)
    (present : ∀ id ∈ ids, forest.contains id = true) : ids.length ≤ forest.cells.length := by
  have indexes : (ids.map NodeId.index).Nodup := by
    refine distinct.map_on ?_
    intro id member other member' same
    exact eq_of_index (present id member) (present other member') same
  have cells : ids.map NodeId.index ⊆ List.range forest.cells.length := by
    intro index member
    obtain ⟨id, listed, rfl⟩ := List.mem_map.mp member
    obtain ⟨node, found⟩ := contains_iff.mp (present id listed)
    obtain ⟨cell, looked, -⟩ := node?_eq_some.mp found
    exact List.mem_range.mpr (List.getElem?_eq_some_iff.mp looked).1
  have few := (List.Nodup.subperm indexes cells).length_le
  rwa [List.length_map, List.length_range] at few

theorem not_vacant (present : forest.contains id = true) : ¬ forest.Vacant id.index := by
  rintro ⟨cell, looked, empty⟩
  obtain ⟨node, found⟩ := contains_iff.mp present
  obtain ⟨cell', looked', -, full⟩ := node?_eq_some.mp found
  rw [looked] at looked'
  cases looked'
  cases empty.symm.trans full

end Views

section Modify

variable {f : Node α → Node α}

theorem contains_modify (forest : Forest α) (id : NodeId) (f : Node α → Node α) (other : NodeId) :
    (forest.modify id f).contains other = forest.contains other := by
  simp only [contains, node?_modify]
  split
  · exact Option.isSome_map
  · rfl

theorem parentOf_modify (keeps : ∀ node, (f node).parent = node.parent) (id : NodeId) :
    (forest.modify id f).parentOf = forest.parentOf := by
  funext other
  simp only [parentOf, node?_modify]
  split
  · cases forest.node? other <;> simp [keeps]
  · rfl

theorem childrenOf_modify (keeps : ∀ node, (f node).children = node.children) (id : NodeId) :
    (forest.modify id f).childrenOf = forest.childrenOf := by
  funext other
  simp only [childrenOf, node?_modify]
  split
  · cases forest.node? other <;> simp [keeps]
  · rfl

theorem parentOf_modify_of_some (found : forest.node? id = some node) (f : Node α → Node α)
    (other : NodeId) : (forest.modify id f).parentOf other =
      if other = id then (f node).parent else forest.parentOf other := by
  simp only [parentOf, node?_modify]
  split
  · rename_i same
    rw [same, found]
    rfl
  · rfl

theorem childrenOf_modify_of_some (found : forest.node? id = some node) (f : Node α → Node α)
    (other : NodeId) : (forest.modify id f).childrenOf other =
      if other = id then (f node).children else forest.childrenOf other := by
  simp only [childrenOf, node?_modify]
  split
  · rename_i same
    rw [same, found]
    rfl
  · rfl

theorem free_modify (forest : Forest α) (id : NodeId) (f : Node α → Node α) :
    (forest.modify id f).free = forest.free := rfl

theorem vacant_modify (forest : Forest α) (id : NodeId) (f : Node α → Node α) (index : Nat) :
    (forest.modify id f).Vacant index ↔ forest.Vacant index := by
  simp only [Vacant, modify, List.getElem?_modify, Option.map_eq_map, Option.map_eq_some_iff]
  constructor
  · rintro ⟨changed, ⟨cell, looked, rfl⟩, empty⟩
    refine ⟨cell, looked, ?_⟩
    split at empty
    · split at empty
      · exact Option.map_eq_none_iff.mp empty
      · exact empty
    · exact empty
  · rintro ⟨cell, looked, empty⟩
    refine ⟨_, ⟨cell, looked, rfl⟩, ?_⟩
    split
    · split
      · exact Option.map_eq_none_iff.mpr empty
      · exact empty
    · exact empty

end Modify

section Chains

theorem Below.mono (fewer : ∀ child parent, next.parentOf child = some parent →
    forest.parentOf child = some parent) (below : next.Below id other) : forest.Below id other :=
  TransGen.mono fewer _ _ below

/-- A chain in a forest with one more link either does without it or leads to it and on from it. -/
theorem Below.of_link (more : ∀ below above, next.parentOf below = some above →
      forest.parentOf below = some above ∨ below = child ∧ above = parent)
    (below : next.Below id other) :
    forest.Below id other ∨ (id = child ∨ forest.Below id child) ∧
      (parent = other ∨ forest.Below parent other) := by
  induction below with
  | single link =>
    rcases more _ _ link with old | ⟨rfl, rfl⟩
    · exact .inl (.single old)
    · exact .inr ⟨.inl rfl, .inl rfl⟩
  | tail chain link ih =>
    rcases more _ _ link with old | ⟨rfl, rfl⟩
    · rcases ih with without | ⟨first, second⟩
      · exact .inl (.tail without old)
      · refine .inr ⟨first, .inr ?_⟩
        rcases second with rfl | second
        · exact .single old
        · exact .tail second old
    · refine .inr ⟨?_, .inl rfl⟩
      rcases ih with without | ⟨first, -⟩
      · exact .inr without
      · exact first

/-- The first step of a chain leads to the parent. -/
theorem below_iff : forest.Below id other ↔ ∃ parent, forest.parentOf id = some parent ∧
    (parent = other ∨ forest.Below parent other) := by
  constructor
  · intro below
    obtain ⟨parent, link, rest⟩ := TransGen.head'_iff.mp below
    refine ⟨parent, link, ?_⟩
    rcases Relation.reflTransGen_iff_eq_or_transGen.mp rest with same | further
    · exact .inl same.symm
    · exact .inr further
  · rintro ⟨parent, link, rfl | further⟩
    · exact .single link
    · exact .head link further

end Chains

namespace Linked

variable {loose : List NodeId} (linked : forest.Linked loose)
include linked

theorem contains_child (listed : child ∈ forest.childrenOf parent) :
    forest.contains child = true :=
  contains_of_parentOf ((linked.linked parent child).mp listed).2

theorem ne_of_child (listed : child ∈ forest.childrenOf parent) : child ≠ parent := by
  rintro rfl
  exact linked.acyclic child (.single ((linked.linked child child).mp listed).2)

omit linked in
/-- A forest is linked when it has the links of one and the same empty cells. -/
theorem of_views (linked : forest.Linked loose) (parents : next.parentOf = forest.parentOf)
    (children : next.childrenOf = forest.childrenOf) (free : next.free = forest.free)
    (vacant : ∀ index, next.Vacant index ↔ forest.Vacant index) : next.Linked loose where
  linked parent child := by
    rw [parents, children]
    exact linked.linked parent child
  distinct id := children ▸ linked.distinct id
  acyclic id below := linked.acyclic id (below.mono fun child parent link => parents ▸ link)
  freeDistinct := free ▸ linked.freeDistinct
  free index := by
    rw [free, vacant]
    exact linked.free index

end Linked
end ChangeWatch.Forest
