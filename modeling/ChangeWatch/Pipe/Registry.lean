import ChangeWatch.Pipe.Basic

/-!
Pipes by name. A name may stand for several makers; a value gets a pipe from the first maker that
supports it. The pipes of the application are known by handles of type `κ`, and its state has type
`σ`.
-/
namespace ChangeWatch

/-- How the pipes of an application act. Each action may change the state of the application. -/
structure HostedPipes (σ κ : Type) where
  supports : κ → Value → StateM σ Bool
  transform : κ → Value → List Value → StateM σ (Except PipeError Transformed)
  destroy : κ → StateM σ Unit

/-- A pipe in use. Built-in pipes count their transforms, which are where their containers are
made. -/
inductive LivePipe (κ : Type) where
  | builtIn (pipe : BuiltInPipe) (place : Place) (transforms : Nat)
  | hosted (handle : κ)

/-- Makes pipes for the values that it supports. -/
inductive PipeMaker (σ κ : Type) where
  | builtIn (kind : BuiltIn)
  | hosted (supports : Value → StateM σ Bool) (create : StateM σ κ)

namespace PipeMaker

def supports : PipeMaker σ κ → Value → StateM σ Bool
  | builtIn kind, value => return kind.supports value
  | hosted supports _, value => supports value

/-- A new pipe; the place is for the containers that it will make. -/
def create (maker : PipeMaker σ κ) (place : Place) : StateM σ (LivePipe κ) :=
  match maker with
  | builtIn kind => return .builtIn (.create kind) place 0
  | hosted _ create => return .hosted (← create)

/-- The first maker that supports a value; later ones are not asked. -/
def firstFor (value : Value) : List (PipeMaker σ κ) → StateM σ (Option (PipeMaker σ κ))
  | [] => return none
  | maker :: makers => do
    if ← maker.supports value then return some maker
    else firstFor value makers

end PipeMaker

structure Registry (σ κ : Type) where
  makers : Entries (List (PipeMaker σ κ))
  hosted : HostedPipes σ κ

namespace Registry

/-- Adds a maker behind the makers of the same name. -/
def add (registry : Registry σ κ) (name : String) (maker : PipeMaker σ κ) : Registry σ κ :=
  let known := (Entries.get? registry.makers name).getD []
  { registry with makers := Entries.insert name (known ++ [maker]) registry.makers }

def empty (hosted : HostedPipes σ κ) : Registry σ κ := { makers := [], hosted }

/-- Both diffs, each with a placeholder for a collection that is not there. -/
def default (hosted : HostedPipes σ κ) : Registry σ κ :=
  empty hosted
    |>.add "iterableDiff" (.builtIn .listDiff)
    |>.add "iterableDiff" (.builtIn .placeholder)
    |>.add "keyValDiff" (.builtIn .mapDiff)
    |>.add "keyValDiff" (.builtIn .placeholder)

def contains (registry : Registry σ κ) (name : String) : Bool :=
  (Entries.get? registry.makers name).isSome

def names (registry : Registry σ κ) : List String := Entries.names registry.makers

/-- A new pipe for a value. -/
def select (registry : Registry σ κ) (name : String) (value : Value) (place : Place) :
    StateM σ (Except PipeError (LivePipe κ)) := do
  match Entries.get? registry.makers name with
  | none => return .error (.notFound name)
  | some makers =>
    match ← PipeMaker.firstFor value makers with
    | none => return .error (.unsupported name value.kind)
    | some maker => return .ok (← maker.create place)

def supports (registry : Registry σ κ) (pipe : LivePipe κ) (value : Value) : StateM σ Bool :=
  match pipe with
  | .builtIn pipe _ _ => return pipe.kind.supports value
  | .hosted handle => registry.hosted.supports handle value

/-- Feeds a value to a pipe. -/
def transform (registry : Registry σ κ) (pipe : LivePipe κ) (value : Value) (args : List Value) :
    StateM σ (Except PipeError Transformed × LivePipe κ) :=
  match pipe with
  | .builtIn pipe place transforms =>
    let (result, pipe) := pipe.transform (.part transforms place) value
    return (result, .builtIn pipe place (transforms + 1))
  | .hosted handle => return (← registry.hosted.transform handle value args, .hosted handle)

/-- Tells a pipe that it will not be used again. -/
def destroy (registry : Registry σ κ) (pipe : LivePipe κ) : StateM σ Unit :=
  match pipe with
  | .builtIn _ _ _ => return ()
  | .hosted handle => registry.hosted.destroy handle

end Registry
end ChangeWatch
