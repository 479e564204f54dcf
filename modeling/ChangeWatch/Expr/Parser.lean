import ChangeWatch.Expr.Lexer

/-!
Parses tokens into expression trees. Every level of the grammar is a parser in terms of the next one,
and every bracket, argument and branch goes back to the loosest level, which is a parameter. A token
has always been taken before that happens, so the number of tokens bounds the nesting.
-/
namespace ChangeWatch

/-- What is left to parse, and the number of the next pipe slot. -/
structure Cursor where
  rest : List Spanned
  slots : Nat

abbrev Parse := StateT Cursor (Except Fault)

namespace Parse

/-- The next token is not what the grammar admits here. -/
def unexpected (expected : Expected) : Parse α := fun cursor =>
  match cursor.rest with
  | [] => .error (.unexpectedEnd expected)
  | next :: _ => .error (.unexpectedToken next.token expected next.start)

/-- Takes the next token if it is the given symbol. -/
def eat (symbol : Symbol) : Parse Bool := fun cursor =>
  match cursor.rest with
  | [] => .ok (false, cursor)
  | next :: rest =>
    if next.token = .symbol symbol then .ok (true, { cursor with rest })
    else .ok (false, cursor)

def expect (symbol : Symbol) (expected : Expected) : Parse Unit := do
  if ← eat symbol then return ()
  else unexpected expected

def ident (expected : Expected) : Parse String := fun cursor =>
  match cursor.rest with
  | { token := .ident name, .. } :: rest => .ok (name, { cursor with rest })
  | _ => unexpected expected cursor

/-- Takes the next token if it is an operator of a table. -/
def operator? (operators : Symbol → Option α) : Parse (Option α) := fun cursor =>
  match cursor.rest with
  | { token := .symbol symbol, .. } :: rest =>
    match operators symbol with
    | some op => .ok (some op, { cursor with rest })
    | none => .ok (none, cursor)
  | _ => .ok (none, cursor)

/-- Numbers a pipe. -/
def slot : Parse Nat := fun cursor => .ok (cursor.slots, { cursor with slots := cursor.slots + 1 })

/-- Repeats a step until it has nothing to add, at most the given number of times. -/
def iterate (step : α → Parse (Option α)) : Nat → α → Parse α
  | 0, value => pure value
  | steps + 1, value => do
    match ← step value with
    | some value => iterate step steps value
    | none => return value

/-- Repeats a step that takes a token whenever it adds something. -/
def extend (step : α → Parse (Option α)) (value : α) : Parse α := fun cursor =>
  iterate step cursor.rest.length value cursor

/-- Items with commas between them, up to and with a closing symbol. -/
def sequence (item : Parse α) (close : Symbol) (expected : Expected) : Parse (List α) := do
  if ← eat close then return []
  else
    let items ← extend (fun items => do
      if ← eat .comma then return some (items ++ [← item])
      else return none) [← item]
    expect close expected
    return items

end Parse

namespace Grammar

open Parse

def arguments (nested : Parse Expr) : Parse (List Expr) :=
  sequence nested .rightParen .commaOrParen

def entry (nested : Parse Expr) : Parse (String × Expr) := do
  let key ← key
  expect .colon .colonAfterKey
  return (key, ← nested)
where
  key : Parse String := fun cursor =>
    match cursor.rest with
    | { token := .ident name, .. } :: rest => .ok (name, { cursor with rest })
    | { token := .str s, .. } :: rest => .ok (s, { cursor with rest })
    | _ => unexpected .mapKey cursor

/-- What may follow a token that starts an operand. -/
def primaryAfter (nested : Parse Expr) (first : Spanned) : Parse Expr :=
  match first.token with
  | .keyword .true => return .literal (.bool true)
  | .keyword .false => return .literal (.bool false)
  | .keyword .null => return .literal .null
  | .keyword .undefined => return .literal .null
  | .int n => return .literal (.int n)
  | .float x => return .literal (.float x)
  | .str s => return .literal (.str s)
  | .ident name => do
    if ← eat .leftParen then return .method .implicit name (← arguments nested)
    else return Expr.name name
  | .symbol .leftParen => do
    let inner ← nested
    expect .rightParen .closingParen
    return inner
  | .symbol .leftBracket =>
    return .array (← sequence nested .rightBracket .commaOrBracket)
  | .symbol .leftBrace =>
    return .map (← sequence (entry nested) .rightBrace .commaOrBrace)
  | .symbol _ => fun _ => .error (.unexpectedToken first.token .expression first.start)

/-- Literals, names, calls of names, and everything in brackets. -/
def primary (nested : Parse Expr) : Parse Expr := fun cursor =>
  match cursor.rest with
  | [] => .error (.unexpectedEnd .expression)
  | first :: rest => primaryAfter nested first { cursor with rest }

/-- Members, calls and indexes behind an operand, from left to right. -/
def member (nested : Parse Expr) : Parse Expr := do
  extend (fun receiver => do
    if ← eat .dot then
      let name ← ident .memberName
      if ← eat .leftParen then return some (.method receiver name (← arguments nested))
      else return some (.property receiver name)
    else if ← eat .leftBracket then
      let key ← nested
      expect .rightBracket .closingBracket
      return some (.keyed receiver key)
    else if ← eat .leftParen then return some (.apply receiver (← arguments nested))
    else return none) (← primary nested)

/-- The arguments of a pipe, each behind a colon. -/
def pipeArguments (nested : Parse Expr) : Parse (List Expr) :=
  extend (fun args => do
    if ← eat .colon then return some (args ++ [← member nested])
    else return none) []

/-- Pipes behind an operand. A pipe is numbered when its arguments have been parsed. -/
def pipeline (nested : Parse Expr) : Parse Expr := do
  extend (fun exp => do
    if ← eat .bar then
      let name ← ident .pipeName
      let args ← pipeArguments nested
      return some (.pipe exp name args (← slot))
    else return none) (← member nested)

def signOf : Symbol → Option UnaryOp
  | .bang => some .not
  | .minus => some .negate
  | .plus => some .plus
  | _ => none

/-- Signs in front of an operand; the innermost stands last. -/
def signed (nested : Parse Expr) : Parse Expr := do
  let signs ← extend (fun signs => do
    match ← operator? signOf with
    | some op => return some (signs ++ [op])
    | none => return none) []
  return signs.foldr Expr.unary (← pipeline nested)

/-- One level of binary operators that group to the left. -/
def level (operators : Symbol → Option BinaryOp) (operand : Parse Expr) : Parse Expr := do
  extend (fun left => do
    match ← operator? operators with
    | some op => return some (.binary op left (← operand))
    | none => return none) (← operand)

def multiplicativeOf : Symbol → Option BinaryOp
  | .star => some .mul
  | .slash => some .div
  | .percent => some .rem
  | _ => none

def additiveOf : Symbol → Option BinaryOp
  | .plus => some .add
  | .minus => some .sub
  | _ => none

def relationalOf : Symbol → Option BinaryOp
  | .less => some .less
  | .greater => some .greater
  | .lessEqual => some .lessEqual
  | .greaterEqual => some .greaterEqual
  | _ => none

def equalityOf : Symbol → Option BinaryOp
  | .equal => some .equal
  | .notEqual => some .notEqual
  | .strictEqual => some .strictEqual
  | .strictNotEqual => some .strictNotEqual
  | _ => none

def conjunctionOf : Symbol → Option BinaryOp
  | .and => some .and
  | _ => none

def disjunctionOf : Symbol → Option BinaryOp
  | .or => some .or
  | _ => none

def multiplicative (nested : Parse Expr) : Parse Expr := level multiplicativeOf (signed nested)

def additive (nested : Parse Expr) : Parse Expr := level additiveOf (multiplicative nested)

def relational (nested : Parse Expr) : Parse Expr := level relationalOf (additive nested)

def equality (nested : Parse Expr) : Parse Expr := level equalityOf (relational nested)

def conjunction (nested : Parse Expr) : Parse Expr := level conjunctionOf (equality nested)

def disjunction (nested : Parse Expr) : Parse Expr := level disjunctionOf (conjunction nested)

/-- The loosest level: a condition with two branches, or no condition. -/
def conditional (nested : Parse Expr) : Parse Expr := do
  let condition ← disjunction nested
  if ← eat .question then
    let yes ← nested
    expect .colon .colonInConditional
    return .conditional condition yes (← nested)
  else return condition

/-- The loosest level, nested in itself at most the given number of times. -/
def expressionWithin : Nat → Parse Expr
  | 0 => unexpected .expression
  | depth + 1 => conditional (expressionWithin depth)

def expression : Parse Expr := fun cursor => expressionWithin (cursor.rest.length + 1) cursor

/-- An expression with nothing behind it. -/
def whole : Parse Expr := do
  let e ← expression
  fun cursor => if cursor.rest.isEmpty then .ok (e, cursor) else unexpected .endOfExpression cursor

end Grammar

/-- Parses a text whose first byte has the given offset, numbering pipes from the given slot. -/
def parseSegment (offset : Nat) (text : List Char) (slots : Nat) : Except Fault (Expr × Nat) := do
  let tokens ← tokenizeFrom offset text
  if tokens.isEmpty then throw (.blank offset)
  else
    let (e, cursor) ← Grammar.whole.run { rest := tokens, slots }
    return (e, cursor.slots)

end ChangeWatch
