import ChangeWatch.Expr.Token
import ChangeWatch.Expr.Tree
import ChangeWatch.Host.Basic

/-!
Why an expression could not be parsed or evaluated.
-/
namespace ChangeWatch

/-- What the grammar admits at some point. -/
inductive Expected where
  | expression | endOfExpression
  | colonInConditional | pipeName | memberName | closingBracket | closingParen
  | commaOrParen | commaOrBracket | commaOrBrace
  | mapKey | colonAfterKey
deriving DecidableEq, Repr

def Expected.text : Expected → String
  | .expression => "an expression"
  | .endOfExpression => "end of expression"
  | .colonInConditional => "':' in conditional"
  | .pipeName => "a pipe name"
  | .memberName => "a member name"
  | .closingBracket => "']'"
  | .closingParen => "')'"
  | .commaOrParen => "',' or ')'"
  | .commaOrBracket => "',' or ']'"
  | .commaOrBrace => "',' or '\x7d'"
  | .mapKey => "a map key"
  | .colonAfterKey => "':' after map key"

/-- What is wrong with a text, and at which byte. -/
inductive Fault where
  | invalidToken (text : String) (column : Nat)
  | unexpectedToken (found : Token) (expected : Expected) (column : Nat)
  | unexpectedEnd (expected : Expected)
  | unterminated (column : Nat)
  | blank (column : Nat)
deriving DecidableEq

def Fault.column? : Fault → Option Nat
  | .invalidToken _ column | .unexpectedToken _ _ column | .unterminated column | .blank column =>
    some column
  | .unexpectedEnd _ => none

/-- A fault in a text that stands at some location. -/
structure ParseError where
  fault : Fault
  input : String
  location : String
deriving DecidableEq

def ParseError.message (error : ParseError) : String :=
  let place := "in [" ++ error.input ++ "] in " ++ error.location
  "Parser Error: " ++ match error.fault with
  | .invalidToken text column => s!"invalid token '{text}' at column {column} {place}"
  | .unexpectedToken found expected column =>
    s!"unexpected token '{found.display}', expected {expected.text} at column {column} {place}"
  | .unexpectedEnd expected =>
    s!"unexpected end of expression, expected {expected.text} {place}"
  | .unterminated column =>
    "missing '\x7d\x7d' for interpolation opened at column " ++ s!"{column} {place}"
  | .blank column => s!"blank expression at column {column} {place}"

inductive EvalError where
  | value (cause : ValueError)
  | operands (op : BinaryOp) (left right : Value.Kind)
  | operand (op : UnaryOp) (found : Value.Kind)
  | pipe (name message : String)
deriving DecidableEq, Repr

def EvalError.message : EvalError → String
  | .value cause => cause.message
  | .operands op left right => s!"cannot apply '{op.symbol}' to {left.name} and {right.name}"
  | .operand op found => s!"cannot apply unary '{op.symbol}' to {found.name}"
  | .pipe name message => s!"pipe '{name}': {message}"

end ChangeWatch
