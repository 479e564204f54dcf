/-!
An arena of nodes that form a forest. Nodes are addressed by handles with a generation, so a handle of
a destroyed node stays invalid when its place is used again. Every node knows its parent and its
children in order.
-/
namespace ChangeWatch

structure NodeId where
  index : Nat
  generation : UInt32
deriving DecidableEq, Repr

def NodeId.display (id : NodeId) : String :=
  s!"detector#{id.index}.{id.generation.toNat}"

structure Node (α : Type) where
  payload : α
  parent : Option NodeId := none
  children : List NodeId := []

/-- A place for a node. The generation counts the nodes destroyed here, modulo `2 ^ 32`. -/
structure Cell (α : Type) where
  generation : UInt32
  node : Option (Node α)

/-- Cells by index, and the indexes of the empty ones, the latest first. -/
structure Forest (α : Type) where
  cells : List (Cell α) := []
  free : List Nat := []

/-- Why a change of the forest was refused. -/
inductive ForestError where
  | unknown (id : NodeId)
  | wouldCreateCycle (parent child : NodeId)
  | alreadyAttached (parent child : NodeId)
  | notAChild (parent child : NodeId)
deriving DecidableEq, Repr

def ForestError.message : ForestError → String
  | unknown id => s!"unknown change detector {id.display}"
  | wouldCreateCycle parent child =>
    s!"cannot add {child.display} under {parent.display}: it would create a cycle"
  | alreadyAttached parent child => s!"{child.display} is already a child of {parent.display}"
  | notAChild parent child => s!"{child.display} is not a child of {parent.display}"

namespace Forest

/-- The number of nodes. -/
def size (forest : Forest α) : Nat := forest.cells.length - forest.free.length

def isEmpty (forest : Forest α) : Bool := forest.size == 0

def node? (forest : Forest α) (id : NodeId) : Option (Node α) :=
  match forest.cells[id.index]? with
  | some cell => if cell.generation = id.generation then cell.node else none
  | none => none

def contains (forest : Forest α) (id : NodeId) : Bool := (forest.node? id).isSome

def node (forest : Forest α) (id : NodeId) : Except ForestError (Node α) :=
  match forest.node? id with
  | some node => .ok node
  | none => .error (.unknown id)

/-- Changes the node with a handle; a handle without a node changes nothing. -/
def modify (forest : Forest α) (id : NodeId) (f : Node α → Node α) : Forest α :=
  { forest with
    cells := forest.cells.modify id.index fun cell =>
      if cell.generation = id.generation then { cell with node := cell.node.map f } else cell }

/-- Adds a node without parent and children, in the cell that was emptied last if there is one. -/
def insert (forest : Forest α) (payload : α) : NodeId × Forest α :=
  match forest.free with
  | index :: free =>
    match forest.cells[index]? with
    | some cell =>
      ({ index, generation := cell.generation },
        { cells := forest.cells.set index { cell with node := some { payload } }, free })
    | none => append { forest with free }
  | [] => append forest
where
  append (forest : Forest α) : NodeId × Forest α :=
    ({ index := forest.cells.length, generation := 0 },
      { forest with cells := forest.cells ++ [{ generation := 0, node := some { payload } }] })

/-- The payloads of all nodes, by index. -/
def payloads (forest : Forest α) : List α :=
  forest.cells.filterMap fun cell => cell.node.map Node.payload

end Forest
end ChangeWatch
