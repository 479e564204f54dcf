import ChangeWatch.Proofs.Delivery.Pass
import ChangeWatch.Proofs.Timeless.Watching

/-!
What notifications look like to someone who does not ask which container is which. Two runs make their
containers at different places, so their notifications are compared by their shapes.
-/
namespace ChangeWatch

namespace Value

mutual
/-- A value without the identity of its containers. -/
def shape : Value → Value
  | list _ items => list (.host 0) (shapeItems items)
  | map _ entries => map (.host 0) (shapeEntries entries)
  | value => value

def shapeItems : List Value → List Value
  | [] => []
  | item :: items => item.shape :: shapeItems items

def shapeEntries : List (String × Value) → List (String × Value)
  | [] => []
  | (name, value) :: entries => (name, value.shape) :: shapeEntries entries
end

variable [Epoch]

mutual
/-- Values with one image have one shape. -/
theorem shape_timeless : (value : Value) → value.timeless.shape = value.shape
  | list place items => by simp only [timeless, shape, shapeItems_timeless items]
  | map place entries => by simp only [timeless, shape, shapeEntries_timeless entries]
  | null | bool _ | int _ | float _ | str _ | object _ | function _ => rfl

theorem shapeItems_timeless : (items : List Value) →
    shapeItems (timelessItems items) = shapeItems items
  | [] => rfl
  | item :: items => by
    simp only [timelessItems, shapeItems, shape_timeless item, shapeItems_timeless items]

theorem shapeEntries_timeless : (entries : List (String × Value)) →
    shapeEntries (timelessEntries entries) = shapeEntries entries
  | [] => rfl
  | (name, value) :: entries => by
    simp only [timelessEntries, shapeEntries, shape_timeless value, shapeEntries_timeless entries]
end

end Value

def Cached.shape : Cached → Cached
  | uninitialized => uninitialized
  | set value => set value.shape

def ChangeRecord.shape (record : ChangeRecord) : ChangeRecord :=
  { record with previous := record.previous.shape, current := record.current.shape }

def Finding.shape : Finding → Finding
  | .changed record => .changed record.shape
  | finding => finding

def Notification.shape (notification : Notification) : Notification :=
  { notification with changes := notification.changes.map ChangeRecord.shape }

/-- The shapes of what an event takes to the dispatcher. -/
def Event.shapes (event : Event) : ChangeLog := event.calls.map Notification.shape

/-- The notifications in some tidings, with the detectors that they come from. -/
def Tidings.shapes (tidings : Tidings) : List (NodeId × Notification) :=
  tidings.flatMap fun (id, event) => event.shapes.map fun notification => (id, notification)

/-- Calls of dispatchers up to the identity of containers. -/
def Calls.shapes (calls : Calls) : Calls := calls.map fun (id, call) => (id, call.shape)

theorem Tidings.shapes_eq (tidings : Tidings) : tidings.shapes = tidings.calls.shapes := by
  simp only [shapes, calls, Calls.shapes, Event.shapes, List.map_flatMap, List.map_map]
  rfl

theorem Tidings.shapes_append (tidings later : Tidings) :
    shapes (tidings ++ later) = shapes tidings ++ shapes later := List.flatMap_append

theorem Tidings.shapes_of_node (id : NodeId) (events : List Event) :
    shapes (events.map fun event => (id, event)) =
      (events.flatMap Event.shapes).map fun notification => (id, notification) := by
  simp only [shapes, List.flatMap_map, List.map_flatMap]

/-- Tidings of events that call no dispatcher. -/
theorem Tidings.shapes_of_silent {tidings : Tidings} (silent : ∀ event ∈ tidings, event.2.calls = []) :
    tidings.shapes = [] := by
  rw [shapes, List.flatMap_eq_nil_iff]
  intro event member
  simp only [Event.shapes, silent event member, List.map_nil]

section Images

variable [Epoch]

theorem Cached.shape_timeless (cached : Cached) : cached.timeless.shape = cached.shape := by
  cases cached with
  | uninitialized => rfl
  | set value => exact congrArg Cached.set value.shape_timeless

theorem ChangeRecord.shape_timeless (record : ChangeRecord) : record.timeless.shape = record.shape := by
  simp only [shape, timeless, Cached.shape_timeless, Value.shape_timeless]

theorem Finding.shape_timeless (finding : Finding) : finding.timeless.shape = finding.shape := by
  cases finding with
  | changed record => exact congrArg Finding.changed record.shape_timeless
  | same | failed => rfl

end Images
end ChangeWatch
