import ChangeWatch.Expr.Error
import ChangeWatch.Expr.Locals
import ChangeWatch.Host.Access

/-!
Where an expression is evaluated: the application behind it, the pipes it may use, and the names it
sees. A bare name means a local if there is one, and a member of the context otherwise.
-/
namespace ChangeWatch

/-- A computation that reaches the application, with state `σ`, and the pipes, with state `π`. A
computation that fails may still have changed both. -/
abbrev Eval (σ π : Type) := ExceptT EvalError (StateM (σ × π))

namespace Eval

/-- An access to the application, which leaves the pipes alone. -/
def access (access : Access σ α) : Eval σ π α := fun (state, pipes) =>
  match access state with
  | (.ok value, state) => (.ok value, (state, pipes))
  | (.error cause, state) => (.error (.value cause), (state, pipes))

def ofExcept (result : Except EvalError α) : Eval σ π α := fun state => (result, state)

end Eval

/-- What a pipe gives for one application: a value, and whether it is new. -/
inductive Applied where
  | changed (value : Value)
  | unchanged (value : Value)
deriving Inhabited

def Applied.value : Applied → Value
  | .changed value | .unchanged value => value

/-- How pipes are applied: by slot and name, to a value and arguments. -/
structure PipeHost (σ π : Type) where
  apply : Nat → String → Value → List Value → Eval σ π Applied

/-- No pipes at all. -/
def PipeHost.none : PipeHost σ π where
  apply _ name _ _ := throw (.pipe name "no pipe registry available")

structure Scope where
  context : Value
  locals : Locals := []

/-- Calls a value. The label names it when it is no function. -/
def Value.call (host : Host σ) (label : String) (target : Value) (args : List Value) :
    Access σ Value :=
  match target with
  | .function f => host.call f args
  | other => throw (.notCallable label other.kind)

namespace Scope

def readName (scope : Scope) (host : Host σ) (name : String) : Access σ Value :=
  match scope.locals.resolve? name with
  | some value => pure value
  | none => scope.context.readField host name

def callName (scope : Scope) (host : Host σ) (name : String) (args : List Value) :
    Access σ Value :=
  match scope.locals.resolve? name with
  | some value => value.call host name args
  | none => scope.context.invoke host name args

end Scope

/-- What an evaluation finds: a value, or that nothing has changed. -/
inductive Outcome where
  | value (value : Value)
  | noChange
deriving Inhabited

/-- At the root of an expression, an unchanged pipe means that the whole expression is unchanged. -/
def Applied.outcome : Applied → Outcome
  | .changed value => .value value
  | .unchanged _ => .noChange

end ChangeWatch
