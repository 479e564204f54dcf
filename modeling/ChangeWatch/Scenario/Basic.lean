import ChangeWatch.Config

/-!
Scenarios: expressions to be watched over a record, and steps that change the record. Their documents
name every field, and only the list of expressions must be there.
-/
namespace ChangeWatch

/-- An expression to be watched. -/
structure BindingSpec where
  expression : String
  id : Option String := none
  group : Option String := none
  interpolation : Bool := false

/-- A change of the record: fields to be set, then fields to be removed. -/
structure Step where
  set : List (String × Json) := []
  remove : List String := []

structure Scenario where
  config : Config := {}
  contextType : String := "Context"
  context : List (String × Json) := []
  locals : List (String × Json) := []
  bindings : List BindingSpec
  steps : List Step := []

def BindingSpec.ofDraft? (draft : Json.Draft) : Option BindingSpec := do
  let fields ← draft.declared? .refused ["expression", "id", "group", "interpolation"]
  let expression ← Json.required fields "expression" Json.Draft.string?
  let id ← Json.field fields "id" Json.Draft.optionalString? none
  let group ← Json.field fields "group" Json.Draft.optionalString? none
  let interpolation ← Json.field fields "interpolation" Json.Draft.bool? false
  return { expression, id, group, interpolation }

/-- A step; the depth is what containers may still take. -/
def Step.ofDraft? (depth : Nat) (draft : Json.Draft) : Option Step := do
  let fields ← draft.declared? .refused ["set", "remove"]
  let set ← Json.field fields "set" (Json.Draft.object? depth) []
  let remove ← Json.field fields "remove" (fun draft => do
    (← draft.array?).mapM Json.Draft.string?) []
  return { set, remove }

namespace Scenario

def ofDraft? (draft : Json.Draft) : Option Scenario := do
  let fields ← draft.declared? .refused
    ["config", "context_type", "context", "locals", "bindings", "steps"]
  let depth := Json.Draft.nesting - 1
  let config ← Json.field fields "config" Config.ofDraft? {}
  let contextType ← Json.field fields "context_type" Json.Draft.string? "Context"
  let context ← Json.field fields "context" (Json.Draft.object? depth) []
  let locals ← Json.field fields "locals" (Json.Draft.object? depth) []
  let bindings ← Json.required fields "bindings" fun draft => do
    (← draft.array?).mapM BindingSpec.ofDraft?
  let steps ← Json.field fields "steps" (fun draft => do
    (← draft.array?).mapM (Step.ofDraft? (depth - 2))) []
  return { config, contextType, context, locals, bindings, steps }

def ofText? (text : String) : Option Scenario := (Json.Draft.ofText? text).bind ofDraft?

end Scenario
end ChangeWatch
