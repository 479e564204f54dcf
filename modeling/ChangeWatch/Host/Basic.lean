import ChangeWatch.Value.Display

/-!
What the engine knows of the application that it watches: objects whose fields can be read and
functions that can be called. The application keeps a state of its own, which any access may change.
-/
namespace ChangeWatch

/-- Why a value could not be used as asked. -/
inductive ValueError where
  | unknownField (typeName name : String)
  | notCallable (name : String) (found : Value.Kind)
  | arity (expected found : Nat)
  | host (message : String)
deriving DecidableEq, Repr

def ValueError.message : ValueError → String
  | .unknownField typeName name => s!"cannot read field '{name}' of {typeName}"
  | .notCallable name found => s!"'{name}' is not a function (found {found.name})"
  | .arity expected found => s!"expected {expected} argument(s), got {found}"
  | .host message => message

/-- An access to an application with state `σ`; an access that fails may still have changed it. -/
abbrev Access (σ : Type) := ExceptT ValueError (StateM σ)

/-- An application: how its objects and functions answer. `fields` is what an object shows of itself
when it is written out, and `nesting` bounds how deep such objects hold one another. -/
structure Host (σ : Type) where
  call : FunctionRef → List Value → Access σ Value
  readField : ObjectRef → String → Access σ Value
  readKeyed : ObjectRef → Value → Access σ Value
  invoke : ObjectRef → String → List Value → Access σ Value
  fields : σ → ObjectRef → List (String × Value)
  nesting : σ → Nat

namespace Host

/-- The application in which every object reads a key as the field that the key displays as, and
calls a method by reading the field and calling what it holds. -/
def ofFields (call : FunctionRef → List Value → Access σ Value)
    (readField : ObjectRef → String → Access σ Value)
    (fields : σ → ObjectRef → List (String × Value)) (nesting : σ → Nat) : Host σ where
  call := call
  readField := readField
  readKeyed ref key := readField ref key.display
  invoke ref name args := do
    match ← readField ref name with
    | .function f => call f args
    | found => throw (.notCallable name found.kind)
  fields := fields
  nesting := nesting

end Host
end ChangeWatch
