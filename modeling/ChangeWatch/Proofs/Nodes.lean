import ChangeWatch.Tree.Basic

/-!
Laws of the nodes of a forest: what a handle finds after a change of another node, or of its own. An
operation on a detector is a change of its node, or refused for want of one.
-/
namespace ChangeWatch

namespace Forest

variable {forest : Forest α} {id other : NodeId}

/-- A change of a node is seen by the handles of that node only. -/
theorem node?_modify (forest : Forest α) (id : NodeId) (f : Node α → Node α) (other : NodeId) :
    (forest.modify id f).node? other =
      if other = id then (forest.node? other).map f else forest.node? other := by
  by_cases same : other.index = id.index
  · simp only [node?, modify, same, List.getElem?_modify_eq]
    cases found : forest.cells[id.index]? with
    | none => simp
    | some cell =>
      by_cases current : cell.generation = id.generation
      · by_cases equal : other = id
        · subst equal
          simp [current]
        · have distinct : id.generation ≠ other.generation := by
            intro generations
            apply equal
            cases other
            cases id
            simp_all
          simp [current, distinct, equal]
      · by_cases equal : other = id
        · subst equal
          simp [current]
        · simp [current, equal]
  · have equal : other ≠ id := fun equal => same (congrArg NodeId.index equal)
    have apart : id.index ≠ other.index := fun equal => same equal.symm
    simp only [node?, modify, equal, if_false, List.getElem?_modify, apart,
      Option.map_eq_map, Option.map_id']

theorem node?_modify_of_some {node : Node α} (found : forest.node? id = some node)
    (f : Node α → Node α) : (forest.modify id f).node? id = some (f node) := by
  rw [node?_modify, if_pos rfl, found, Option.map_some]

theorem node_eq_ok {found : Node α} :
    forest.node id = .ok found ↔ forest.node? id = some found := by
  cases looked : forest.node? id <;> simp [node, looked]

end Forest

namespace TreeM

variable {id : NodeId} {action : Detector σ κ → StateM σ (α × Detector σ κ)} {state : σ}
  {tree : Tree σ κ}

theorem onDetector_of_some {node : Node (Detector σ κ)} (found : tree.node? id = some node) :
    onDetector id action (state, tree) =
      let acted := action node.payload state
      (.ok acted.1.1, (acted.2, Forest.modify tree id fun node =>
        { node with payload := acted.1.2 })) := by
  simp only [onDetector, Forest.node_eq_ok.mpr found]
  rfl

/-- A change of the tree alone that happens or is refused. -/
theorem restructure_of_ok {change : Tree σ κ → Except ForestError (α × Tree σ κ)} {value : α}
    {next : Tree σ κ} (changed : change tree = .ok (value, next)) (state : σ) :
    restructure change (state, tree) = (.ok value, (state, next)) := by
  simp only [restructure, changed]

theorem restructure_of_error {change : Tree σ κ → Except ForestError (α × Tree σ κ)}
    {cause : ForestError} (refused : change tree = .error cause) (state : σ) :
    restructure change (state, tree) = (.error (.forest cause), (state, tree)) := by
  simp only [restructure, refused]

theorem onDetector_of_none (absent : tree.node? id = none) :
    onDetector id action (state, tree) = (.error (.forest (.unknown id)), (state, tree)) := by
  simp only [onDetector, Forest.node, absent]

end TreeM
end ChangeWatch
