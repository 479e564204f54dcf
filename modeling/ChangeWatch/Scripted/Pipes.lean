import ChangeWatch.Scripted.World
import ChangeWatch.Pipe.Registry
import ChangeWatch.Expr.Scope

/-!
Described pipes, which note in the journal when they are made, fed and destroyed, and pipe hosts that
only write down what they are asked.
-/
namespace ChangeWatch.Scripted

/-- Whether a list of kinds admits a value; a missing list admits all. -/
def admits (kinds : Option (List String)) (value : Value) : Bool :=
  match kinds with
  | none => true
  | some kinds => kinds.contains value.kind.name

/-- What a pipe makes of a value, and the value it lets through if it does. -/
def PipeState.result (pipe : PipeState) (value : Value) (args : List Value) :
    StateM World (Except PipeError Transformed) := do
  let spec := pipe.spec
  match spec.behaviour with
  | .counting => return .ok (.value (.str s!"{value.display} state:{pipe.seen}"))
  | .identity =>
    match pipe.last with
    | some last => if last.identical value then return .ok .noChange else return .ok (.value value)
    | none => return .ok (.value value)
  | .join => return .ok (.value (.str ("-".intercalate ((value :: args).map Value.display))))
  | .args => return .ok (.value (.list (← World.place) (value :: args)))
  | .tag => return .ok (.value (.str spec.tag))
  | .fail =>
    if spec.after ≤ pipe.seen then return .error (.transform spec.tag spec.message)
    else return .ok (.value value)
  | .nochange =>
    if spec.after ≤ pipe.seen then return .ok .noChange else return .ok (.value value)
  | .once => return .ok (.value value)

/-- The pipe after it was fed; only a value that is passed on is the last one. -/
def PipeState.fed (pipe : PipeState) (value : Value) (result : Except PipeError Transformed) :
    PipeState :=
  match result with
  | .ok (.value _) => { pipe with seen := pipe.seen + 1, last := some value }
  | _ => { pipe with seen := pipe.seen + 1 }

/-- Pipes by their position in the world. -/
def pipes : HostedPipes World Nat where
  supports handle value world :=
    match world.pipes[handle]? with
    | none => (false, world)
    | some pipe =>
      let answer := match pipe.spec.behaviour with
        | .once => pipe.seen == 0
        | _ => admits pipe.spec.supports value
      (answer, world)
  transform handle value args := do
    match (← get).pipes[handle]? with
    | none => return .error (.transform "" "no such pipe")
    | some pipe =>
      modify fun world =>
        world.note (.transform pipe.spec.tag pipe.number (world.snapshot value))
      let result ← pipe.result value args
      modify fun world =>
        { world with pipes := world.pipes.set handle (pipe.fed value result) }
      return result
  destroy handle world :=
    match world.pipes[handle]? with
    | none => ((), world)
    | some pipe => ((), world.note (.destroy pipe.spec.tag pipe.number))

/-- The maker with a number. -/
def maker (number : Nat) (spec : PipeSpec) : PipeMaker World Nat :=
  .hosted (fun value => return admits spec.accepts value) fun world =>
    let count := world.makers.getD number 0
    let makers := (world.makers ++ List.replicate (number + 1 - world.makers.length) 0).set number
      (count + 1)
    let pipes := world.pipes ++ [({ spec, number := count } : PipeState)]
    (world.pipes.length, World.note (.create spec.tag count) { world with pipes, makers })

/-- A registration: a built-in maker or a described one. -/
inductive Registration where
  | builtIn (name : String) (kind : BuiltIn)
  | hosted (name : String) (spec : PipeSpec)

/-- A registry with further registrations, in order. -/
def register (registry : Registry World Nat) (registrations : List Registration) :
    Registry World Nat :=
  registrations.zipIdx.foldl (fun registry (registration, number) =>
    match registration with
    | .builtIn name kind => registry.add name (.builtIn kind)
    | .hosted name spec => registry.add name (maker number spec)) registry

/-- An application of a pipe, as it was asked for. -/
structure PipeCall where
  slot : Nat
  name : String
  value : Snapshot
  args : List Snapshot

/-- Notes a call and goes on. -/
def noteCall (slot : Nat) (name : String) (value : Value) (args : List Value)
    (answer : StateM World Applied) : Eval World (List PipeCall) Applied := fun (world, calls) =>
  let call : PipeCall :=
    { slot, name, value := world.snapshot value, args := args.map world.snapshot }
  let (applied, world) := answer world
  (.ok applied, (world, calls ++ [call]))

/-- Answers every application with a list of what was asked. -/
def echo : PipeHost World (List PipeCall) where
  apply slot name value args := noteCall slot name value args do
    let inner ← World.place
    let outer ← World.place
    return .changed (.list outer [.ofNat slot, .str name, value, .list inner args])

/-- Answers every application with the value, as nothing new. -/
def unchanged : PipeHost World (List PipeCall) where
  apply slot name value args := noteCall slot name value args (return .unchanged value)

end ChangeWatch.Scripted
