import ChangeWatch.Scripted.World

/-!
A described dispatcher: it logs every group, notes it in the journal, changes records in answer to it,
and refuses the groups it is told to refuse.
-/
namespace ChangeWatch.Scripted

/-- A field to be set when a group arrives. -/
structure Effect where
  group : String
  record : String
  field : String
  value : Value

structure Listener where
  failGroups : List String := []
  effects : List Effect := []

/-- Applies the effects for a group, in order. -/
def applyEffects (group : String) : List Effect → StateM World Unit
  | [] => return ()
  | effect :: effects => do
    if effect.group = group then
      let _ ← World.setField effect.record effect.field effect.value
    applyEffects group effects

def seen (world : World) (change : ChangeRecord) : SeenChange :=
  { binding := change.binding.text
    previous := change.previous.value?.map world.snapshot
    current := world.snapshot change.current }

def Listener.dispatcher (listener : Listener) : Dispatcher World := fun group changes => do
  modify fun world =>
    let log := world.log ++ [({ group, changes } : Notification)]
    World.note (.flush group.text (changes.map (seen world))) { world with log }
  applyEffects group.text listener.effects
  if listener.failGroups.contains group.text then
    return .error s!"listener rejected {group.text}"
  else return .ok ()

end ChangeWatch.Scripted
