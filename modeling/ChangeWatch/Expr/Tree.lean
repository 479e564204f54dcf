import ChangeWatch.Value.Basic

/-!
Expression trees. The implicit receiver stands for the context, so a bare name is a property of it.
Every pipe has a slot, which is where its instance lives between evaluations.
-/
namespace ChangeWatch

inductive UnaryOp where
  | not | negate | plus
deriving DecidableEq, Repr

def UnaryOp.symbol : UnaryOp → String
  | .not => "!"
  | .negate => "-"
  | .plus => "+"

inductive BinaryOp where
  | add | sub | mul | div | rem
  | equal | notEqual | strictEqual | strictNotEqual
  | less | greater | lessEqual | greaterEqual
  | and | or
deriving DecidableEq, Repr

namespace BinaryOp

def symbol : BinaryOp → String
  | add => "+"
  | sub => "-"
  | mul => "*"
  | div => "/"
  | rem => "%"
  | equal => "=="
  | notEqual => "!="
  | strictEqual => "==="
  | strictNotEqual => "!=="
  | less => "<"
  | greater => ">"
  | lessEqual => "<="
  | greaterEqual => ">="
  | and => "&&"
  | or => "||"

def all : List BinaryOp :=
  [add, sub, mul, div, rem, equal, notEqual, strictEqual, strictNotEqual, less, greater, lessEqual,
    greaterEqual, and, or]

def ofSymbol? (symbol : String) : Option BinaryOp := all.find? fun op => op.symbol == symbol

end BinaryOp

def UnaryOp.ofSymbol? (symbol : String) : Option UnaryOp :=
  [UnaryOp.not, .negate, .plus].find? fun op => op.symbol == symbol

inductive Expr where
  | implicit
  | literal (value : Value)
  | property (receiver : Expr) (name : String)
  | keyed (receiver key : Expr)
  | method (receiver : Expr) (name : String) (args : List Expr)
  | apply (target : Expr) (args : List Expr)
  | unary (op : UnaryOp) (operand : Expr)
  | binary (op : BinaryOp) (left right : Expr)
  | conditional (condition yes no : Expr)
  | array (items : List Expr)
  | map (entries : List (String × Expr))
  | pipe (exp : Expr) (name : String) (args : List Expr) (slot : Nat)
  | interpolation (strings : List String) (expressions : List Expr)
deriving Inhabited

namespace Expr

/-- A bare name. -/
def name (name : String) : Expr := property implicit name

def isImplicit : Expr → Bool
  | implicit => true
  | _ => false

def isLiteral : Expr → Bool
  | literal _ => true
  | _ => false

end Expr
end ChangeWatch
