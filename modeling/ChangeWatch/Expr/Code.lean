import ChangeWatch.Expr.Evaluate

/-!
Expressions prepared for repeated evaluation. Whatever is known beforehand is computed once: operators
on constants, conditionals on constants, and arrays and maps of constants, which are then one
container for all evaluations. An operation that fails on constants is left to fail when it is run.
-/
namespace ChangeWatch

inductive Code where
  | context
  | const (value : Value)
  | readName (name : String)
  | readField (receiver : Code) (name : String)
  | readKeyed (receiver key : Code)
  | callName (name : String) (args : List Code)
  | invoke (receiver : Code) (name : String) (args : List Code)
  | call (label : String) (target : Code) (args : List Code)
  | unary (op : UnaryOp) (operand : Code)
  | binary (op : BinaryOp) (left right : Code)
  | branch (condition yes no : Code)
  | array (path : List Nat) (items : List Code)
  | map (path : List Nat) (keys : List String) (values : List Code)
  | pipe (exp : Code) (name : String) (args : List Code) (slot : Nat)
  | woven (strings : List String) (parts : List Code)
deriving Inhabited

namespace Code

def const? : Code → Option Value
  | const value => some value
  | _ => none

/-- The constants of codes that are all constant. -/
def consts? : List Code → Option (List Value)
  | [] => some []
  | code :: codes => do
    let value ← code.const?
    let values ← consts? codes
    return value :: values

/-- The constant, if the computation on constants succeeds, else the code. -/
def foldOr (computed : Option (Except EvalError Value)) (code : Code) : Code :=
  match computed with
  | some (.ok value) => const value
  | _ => code

def ofUnary (op : UnaryOp) (operand : Code) : Code :=
  foldOr (operand.const?.map op.apply) (unary op operand)

def ofBinary (op : BinaryOp) (left right : Code) : Code :=
  let computed := match left.const?, right.const? with
    | some l, some r => some (op.apply l r)
    | _, _ => none
  foldOr computed (binary op left right)

mutual
/-- Runs code in an evaluation that has the given place. -/
def run (setting : Setting σ π) (base : Place) : Code → Eval σ π Value
  | context => return setting.scope.context
  | const value => return value
  | readName name => .access (setting.scope.readName setting.host name)
  | readField receiver name => do
    let receiver ← run setting base receiver
    .access (receiver.readField setting.host name)
  | readKeyed receiver key => do
    let receiver ← run setting base receiver
    let key ← run setting base key
    .access (receiver.readKeyed setting.host key)
  | callName name args => do
    let args ← runAll setting base args
    .access (setting.scope.callName setting.host name args)
  | invoke receiver name args => do
    let receiver ← run setting base receiver
    let args ← runAll setting base args
    .access (receiver.invoke setting.host name args)
  | call label target args => do
    let function ← run setting base target
    let args ← runAll setting base args
    .access (function.call setting.host label args)
  | unary op operand => do
    let operand ← run setting base operand
    .ofExcept (op.apply operand)
  | binary .and left right => do
    let left ← run setting base left
    if left.truthy then
      let right ← run setting base right
      return .bool right.truthy
    else return .bool false
  | binary .or left right => do
    let left ← run setting base left
    if left.truthy then return .bool true
    else
      let right ← run setting base right
      return .bool right.truthy
  | binary op left right => do
    let left ← run setting base left
    let right ← run setting base right
    .ofExcept (op.apply left right)
  | branch condition yes no => do
    let condition ← run setting base condition
    if condition.truthy then run setting base yes else run setting base no
  | array path items => do
    let items ← runAll setting base items
    return .list (base.within path) items
  | map path keys values => do
    let values ← runAll setting base values
    return .map (base.within path) (Entries.ofList (keys.zip values))
  | pipe exp name args slot => do
    let value ← run setting base exp
    let args ← runAll setting base args
    let applied ← setting.pipes.apply slot name value args
    return applied.value
  | woven strings parts => do
    let text ← runText setting base strings parts
    return .str text

def runAll (setting : Setting σ π) (base : Place) : List Code → Eval σ π (List Value)
  | [] => return []
  | code :: codes => do
    let value ← run setting base code
    let values ← runAll setting base codes
    return value :: values

def runText (setting : Setting σ π) (base : Place) : List String → List Code → Eval σ π String
  | strings, [] => return String.join strings
  | [], _ :: _ => return ""
  | text :: strings, code :: codes => do
    let value ← run setting base code
    let rest ← runText setting base strings codes
    return text ++ value.display ++ rest
end

end Code

namespace Expr

mutual
/-- The code of the expression at the end of a path. Constant containers are made at once, at the
given place. -/
def lower (base : Place) (path : List Nat) : Expr → Code
  | implicit => .context
  | literal value => .const value
  | property receiver name =>
    if receiver.isImplicit then .readName name
    else .readField (lower base (0 :: path) receiver) name
  | keyed receiver key => .readKeyed (lower base (0 :: path) receiver) (lower base (1 :: path) key)
  | method receiver name args =>
    if receiver.isImplicit then .callName name (lowerAll base path 1 args)
    else .invoke (lower base (0 :: path) receiver) name (lowerAll base path 1 args)
  | apply target args =>
    .call target.render (lower base (0 :: path) target) (lowerAll base path 1 args)
  | unary op operand => .ofUnary op (lower base (0 :: path) operand)
  | binary op left right =>
    .ofBinary op (lower base (0 :: path) left) (lower base (1 :: path) right)
  | conditional condition yes no =>
    let yes := lower base (1 :: path) yes
    let no := lower base (2 :: path) no
    match lower base (0 :: path) condition with
    | .const value => if value.truthy then yes else no
    | condition => .branch condition yes no
  | array items =>
    let codes := lowerAll base path 0 items
    match Code.consts? codes with
    | some values => .const (.list (base.within path) values)
    | none => .array path codes
  | map entries =>
    let keys := entries.map Prod.fst
    let codes := lowerEntries base path 0 entries
    match Code.consts? codes with
    | some values => .const (.map (base.within path) (Entries.ofList (keys.zip values)))
    | none => .map path keys codes
  | pipe exp name args slot =>
    .pipe (lower base (0 :: path) exp) name (lowerAll base path 1 args) slot
  | interpolation strings expressions => .woven strings (lowerAll base path 0 expressions)

def lowerAll (base : Place) (path : List Nat) (index : Nat) : List Expr → List Code
  | [] => []
  | e :: es => lower base (index :: path) e :: lowerAll base path (index + 1) es

def lowerEntries (base : Place) (path : List Nat) (index : Nat) : List (String × Expr) → List Code
  | [] => []
  | (_, e) :: entries => lower base (index :: path) e :: lowerEntries base path (index + 1) entries
end

end Expr

/-- A whole expression prepared for evaluation, with a pipe at its root kept apart. -/
inductive Program where
  | value (code : Code)
  | pipe (exp : Code) (name : String) (args : List Code) (slot : Nat)

namespace Program

def ofExpr (base : Place) : Expr → Program
  | .pipe exp name args slot => pipe (exp.lower base [0]) name (Expr.lowerAll base [] 1 args) slot
  | e => value (e.lower base [])

def evaluate (setting : Setting σ π) (base : Place) : Program → Eval σ π Outcome
  | value code => do
    let value ← code.run setting base
    return .value value
  | pipe exp name args slot => do
    let value ← exp.run setting base
    let args ← Code.runAll setting base args
    let applied ← setting.pipes.apply slot name value args
    return applied.outcome

end Program
end ChangeWatch
