import ChangeWatch.Pipe.Registry
import ChangeWatch.Expr.Scope

/-!
Pipe slots. A slot keeps the pipe that an expression used at some point, for as long as the pipe
supports the values that arrive there. A pipe that no longer does is destroyed before its successor is
made.
-/
namespace ChangeWatch

/-- A place for one pipe, the last value that a pipe published there, and how many pipes have been
made for it. -/
structure PipeSlot (κ : Type) where
  pipe : Option (LivePipe κ) := none
  last : Value := .null
  made : Nat := 0

namespace PipeSlot

/-- Keeps the pipe if it supports the value and destroys it otherwise. -/
def keep (registry : Registry σ κ) (value : Value) (slot : PipeSlot κ) :
    StateM σ (Option (LivePipe κ)) := do
  match slot.pipe with
  | none => return none
  | some pipe =>
    if ← registry.supports pipe value then return some pipe
    else
      registry.destroy pipe
      return none

/-- Feeds a value to a pipe, which then lives in the slot, whether it succeeds or not. -/
def feed (registry : Registry σ κ) (pipe : LivePipe κ) (value : Value) (args : List Value)
    (slot : PipeSlot κ) : StateM σ (Except PipeError Applied × PipeSlot κ) := do
  let (result, pipe) ← registry.transform pipe value args
  let slot := { slot with pipe := some pipe }
  match result with
  | .error cause => return (.error cause, slot)
  | .ok (.value value) => return (.ok (.changed value), { slot with last := value })
  | .ok .noChange => return (.ok (.unchanged slot.last), slot)

/-- Applies the pipe of a slot, after choosing a new one if there is none for the value. The place is
the place of the slot. -/
def apply (registry : Registry σ κ) (place : Place) (name : String) (value : Value)
    (args : List Value) (slot : PipeSlot κ) :
    StateM σ (Except PipeError Applied × PipeSlot κ) := do
  match ← slot.keep registry value with
  | some pipe => slot.feed registry pipe value args
  | none =>
    match ← registry.select name value (.part slot.made place) with
    | .error cause => return (.error cause, { slot with pipe := none })
    | .ok pipe => feed registry pipe value args { slot with made := slot.made + 1 }

/-- Destroys the pipe of a slot, if there is one, and forgets what it published. -/
def clear (registry : Registry σ κ) (slot : PipeSlot κ) : StateM σ (PipeSlot κ) := do
  match slot.pipe with
  | none => return { slot with last := .null }
  | some pipe =>
    registry.destroy pipe
    return { slot with pipe := none, last := .null }

def clearAll (registry : Registry σ κ) : List (PipeSlot κ) → StateM σ (List (PipeSlot κ))
  | [] => return []
  | slot :: slots => do
    let slot ← slot.clear registry
    let slots ← clearAll registry slots
    return slot :: slots

/-- The pipes of an expression whose slots have the given place. -/
def host (registry : Registry σ κ) (place : Place) : PipeHost σ (List (PipeSlot κ)) where
  apply index name value args := fun (state, slots) =>
    match slots[index]? with
    | none => (.error (.pipe name s!"no pipe slot {index}"), (state, slots))
    | some slot =>
      match slot.apply registry (.part index place) name value args state with
      | ((.ok applied, slot), state) => (.ok applied, (state, slots.set index slot))
      | ((.error cause, slot), state) =>
        (.error (.pipe name cause.message), (state, slots.set index slot))

end PipeSlot
end ChangeWatch
