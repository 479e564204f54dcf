import ChangeWatch.Forest.Basic

/-!
Links nodes, unlinks them and destroys whole subtrees. A refused change leaves the forest as it was.
-/
namespace ChangeWatch.Forest

/-- Refuses if the node is met on the way from a handle to its root. -/
def refuteAncestor (forest : Forest α) (refusal : ForestError) (child : NodeId) :
    Nat → Option NodeId → Except ForestError Unit
  | _, none => .ok ()
  | 0, some _ => .ok ()
  | steps + 1, some ancestor =>
    if ancestor = child then .error refusal
    else
      match forest.node ancestor with
      | .error error => .error error
      | .ok node => refuteAncestor forest refusal child steps node.parent

/-- Makes a node without a parent the last child of another one, unless that lies below it. -/
def addChild (forest : Forest α) (parent child : NodeId) : Except ForestError (Forest α) := do
  let node ← forest.node child
  match node.parent with
  | some current => throw (.alreadyAttached current child)
  | none =>
    refuteAncestor forest (.wouldCreateCycle parent child) child (forest.cells.length + 1)
      (some parent)
    let forest := forest.modify parent fun node =>
      { node with children := node.children ++ [child] }
    return forest.modify child fun node => { node with parent := some parent }

/-- Makes a child a root of its own; the order of the other children stays. -/
def removeChild (forest : Forest α) (parent child : NodeId) :
    Except ForestError (Forest α) := do
  let _ ← forest.node child
  let node ← forest.node parent
  if node.children.contains child then
    let forest := forest.modify parent fun node =>
      { node with children := node.children.erase child }
    return forest.modify child fun node => { node with parent := none }
  else throw (.notAChild parent child)

/-- Unlinks a node from its parent, if it has one. -/
def remove (forest : Forest α) (id : NodeId) : Except ForestError (Forest α) := do
  let node ← forest.node id
  match node.parent with
  | some parent => forest.removeChild parent id
  | none => return forest

/-- The children of the node of a cell. -/
def below (cell : Cell α) : List NodeId := (cell.node.map Node.children).getD []

/-- The number of links from parents to children. -/
def links (forest : Forest α) : Nat :=
  forest.cells.foldr (fun cell count => (below cell).length + count) 0

/-- Empties the cells of pending nodes, the last one first, and then those of their children. The
payloads come in the order of emptying. Every step settles a pending handle, and each link adds one
once. -/
def uproot : Nat → List NodeId → Forest α → List α × Forest α
  | 0, _, forest => ([], forest)
  | _ + 1, [], forest => ([], forest)
  | steps + 1, id :: pending, forest =>
    match forest.cells[id.index]? with
    | none => uproot steps pending forest
    | some cell =>
      match cell.node with
      | none => uproot steps pending forest
      | some node =>
        let emptied : Cell α := { generation := cell.generation + 1, node := none }
        let forest : Forest α :=
          { cells := forest.cells.set id.index emptied, free := id.index :: forest.free }
        let (payloads, forest) := uproot steps (node.children.reverse ++ pending) forest
        (node.payload :: payloads, forest)

/-- Destroys a node with everything below it, and gives the payloads back. -/
def destroy (forest : Forest α) (id : NodeId) : Except ForestError (List α × Forest α) := do
  let forest ← forest.remove id
  return uproot (forest.links + 1) [id] forest

end ChangeWatch.Forest
