import ChangeWatch.Expr.Operators
import ChangeWatch.Expr.Printer
import ChangeWatch.Expr.Scope

/-!
Evaluates an expression by walking its tree, operands from left to right. An array or map literal
makes a new container each time; its place is the path to the literal, counted from the place of the
evaluation.
-/
namespace ChangeWatch

/-- The part at the end of a path, whose last step comes first. -/
def Place.within (base : Place) (path : List Nat) : Place := path.foldr Place.part base

/-- Everything that an evaluation depends on besides the expression. -/
structure Setting (σ π : Type) where
  host : Host σ
  pipes : PipeHost σ π
  scope : Scope

namespace Expr

mutual
/-- The value of the expression at the end of a path, in an evaluation that has the given place. -/
def eval (setting : Setting σ π) (base : Place) (path : List Nat) : Expr → Eval σ π Value
  | implicit => return setting.scope.context
  | literal value => return value
  | property receiver name =>
    if receiver.isImplicit then .access (setting.scope.readName setting.host name)
    else do
      let receiver ← eval setting base (0 :: path) receiver
      .access (receiver.readField setting.host name)
  | keyed receiver key => do
    let receiver ← eval setting base (0 :: path) receiver
    let key ← eval setting base (1 :: path) key
    .access (receiver.readKeyed setting.host key)
  | method receiver name args =>
    if receiver.isImplicit then do
      let args ← evalAll setting base path 1 args
      .access (setting.scope.callName setting.host name args)
    else do
      let receiver ← eval setting base (0 :: path) receiver
      let args ← evalAll setting base path 1 args
      .access (receiver.invoke setting.host name args)
  | apply target args => do
    let function ← eval setting base (0 :: path) target
    let args ← evalAll setting base path 1 args
    .access (function.call setting.host target.render args)
  | unary op operand => do
    let operand ← eval setting base (0 :: path) operand
    .ofExcept (op.apply operand)
  | binary .and left right => do
    let left ← eval setting base (0 :: path) left
    if left.truthy then
      let right ← eval setting base (1 :: path) right
      return .bool right.truthy
    else return .bool false
  | binary .or left right => do
    let left ← eval setting base (0 :: path) left
    if left.truthy then return .bool true
    else
      let right ← eval setting base (1 :: path) right
      return .bool right.truthy
  | binary op left right => do
    let left ← eval setting base (0 :: path) left
    let right ← eval setting base (1 :: path) right
    .ofExcept (op.apply left right)
  | conditional condition yes no => do
    let condition ← eval setting base (0 :: path) condition
    if condition.truthy then eval setting base (1 :: path) yes
    else eval setting base (2 :: path) no
  | array items => do
    let items ← evalAll setting base path 0 items
    return .list (base.within path) items
  | map entries => do
    let entries ← evalEntries setting base path 0 entries
    return .map (base.within path) (Entries.ofList entries)
  | pipe exp name args slot => do
    let value ← eval setting base (0 :: path) exp
    let args ← evalAll setting base path 1 args
    let applied ← setting.pipes.apply slot name value args
    return applied.value
  | interpolation strings expressions => do
    let text ← evalText setting base path 0 strings expressions
    return .str text

/-- The values of expressions that are numbered parts of one. -/
def evalAll (setting : Setting σ π) (base : Place) (path : List Nat) (index : Nat) :
    List Expr → Eval σ π (List Value)
  | [] => return []
  | e :: es => do
    let value ← eval setting base (index :: path) e
    let values ← evalAll setting base path (index + 1) es
    return value :: values

def evalEntries (setting : Setting σ π) (base : Place) (path : List Nat) (index : Nat) :
    List (String × Expr) → Eval σ π (List (String × Value))
  | [] => return []
  | (key, e) :: entries => do
    let value ← eval setting base (index :: path) e
    let values ← evalEntries setting base path (index + 1) entries
    return (key, value) :: values

/-- Strings with the values of expressions between them. An expression without a string in front of
it is not evaluated. -/
def evalText (setting : Setting σ π) (base : Place) (path : List Nat) (index : Nat) :
    List String → List Expr → Eval σ π String
  | strings, [] => return String.join strings
  | [], _ :: _ => return ""
  | text :: strings, e :: es => do
    let value ← eval setting base (index :: path) e
    let rest ← evalText setting base path (index + 1) strings es
    return text ++ value.display ++ rest
end

/-- Evaluates a whole expression. A pipe at its root may answer that nothing has changed. -/
def evaluate (setting : Setting σ π) (base : Place) : Expr → Eval σ π Outcome
  | pipe exp name args slot => do
    let value ← eval setting base [0] exp
    let args ← evalAll setting base [] 1 args
    let applied ← setting.pipes.apply slot name value args
    return applied.outcome
  | e => do
    let value ← eval setting base [] e
    return .value value

end Expr
end ChangeWatch
