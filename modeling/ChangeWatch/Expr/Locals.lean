import ChangeWatch.Value.Basic

/-!
Local names, in frames that lie one inside the other. An inner frame hides the names of the frames
around it.
-/
namespace ChangeWatch

/-- Frames from the innermost outwards. -/
abbrev Locals := List (Entries Value)

namespace Locals

def resolve? : Locals → String → Option Value
  | [], _ => none
  | frame :: outer, name =>
    match Entries.get? frame name with
    | some value => some value
    | none => resolve? outer name

def declares (locals : Locals) (name : String) : Bool := (locals.resolve? name).isSome

/-- The names of all frames; a name is listed once for every frame that binds it. -/
def names (locals : Locals) : List String := locals.flatMap Entries.names

/-- Enters a frame with these bindings. -/
def child (bindings : List (String × Value)) (outer : Locals) : Locals :=
  Entries.ofList bindings :: outer

/-- Frames given from the outermost inwards. -/
def ofFrames (frames : List (List (String × Value))) : Locals :=
  frames.foldl (fun outer bindings => child bindings outer) []

end Locals
end ChangeWatch
