import ChangeWatch.Proofs.Grammar.Completeness

/-!
The procedures of the expression parser, which call each other and repeat steps without any bound. What
they do is syntax, and its runs are told by rules: a run that does not end has no tree of them. All that is
done with the tokens is to look at the next one, so a run stays within the tokens, and what it gives depends
on those that it has looked at.
-/
namespace ChangeWatch

/-- Behind the next token, where there is one. -/
def Cursor.advance (cursor : Cursor) : Cursor := { cursor with rest := cursor.rest.tail }

theorem Cursor.advance_tokens (cursor : Cursor) : cursor.advance.tokens = cursor.tokens.tail :=
  List.map_tail

theorem Cursor.tokens_split {cursor after : Cursor} {used : List Spanned}
    (split : used ++ after.rest = cursor.rest) :
    cursor.tokens = used.map Spanned.token ++ after.tokens := by
  rw [Cursor.tokens, ← split, List.map_append]
  rfl

/-- The next token, or the end, is not what the grammar admits. -/
def Cursor.fault (cursor : Cursor) (expected : Expected) : Fault :=
  match cursor.rest with
  | [] => .unexpectedEnd expected
  | next :: _ => .unexpectedToken next.token expected next.start

namespace Grammar

/-- What becomes of the next token. -/
inductive Verdict (α : Type) where
  | take (value : α)
  | leave (value : α)
  /-- The token is not admitted, and stays. -/
  | refuse (expected : Expected)
  /-- The token is not admitted, and has been taken before that is found. -/
  | discard (expected : Expected)

def Verdict.run (cursor : Cursor) : Verdict α → Except Fault α × Cursor
  | take value => (.ok value, cursor.advance)
  | leave value => (.ok value, cursor)
  | refuse expected => (.error (cursor.fault expected), cursor)
  | discard expected => (.error (cursor.fault expected), cursor.advance)

theorem Verdict.run_ok {verdict : Verdict α} {cursor after : Cursor} {value : α}
    (ran : verdict.run cursor = (.ok value, after)) :
    verdict = .take value ∧ after = cursor.advance ∨ verdict = .leave value ∧ after = cursor := by
  cases verdict <;> cases ran
  · exact .inl ⟨rfl, rfl⟩
  · exact .inr ⟨rfl, rfl⟩

/-- The procedures, each with the type of what it gives. -/
inductive Procedure : Type → Type where
  | conditional : Procedure Expr
  | binary (level : Level) : Procedure Expr
  | unary : Procedure Expr
  | pipe : Procedure Expr
  | member : Procedure Expr
  | primary : Procedure Expr
  | arguments : Procedure (List Expr)
  | sequence (close : Symbol) (expected : Expected) : Procedure (List Expr)
  | map : Procedure Expr

/-- What a procedure does. -/
inductive Routine : Type → Type 1 where
  | pure (value : α) : Routine α
  | bind (first : Routine α) (next : α → Routine β) : Routine β
  /-- Judges the next token, or the end of the tokens. -/
  | read (judge : Option Token → Verdict α) : Routine α
  /-- Numbers a pipe. -/
  | slot : Routine Nat
  | call (procedure : Procedure α) : Routine α
  /-- Repeats a step until it has nothing to add. -/
  | loop (step : α → Routine (Option α)) (value : α) : Routine α

/-- What starts with a token that an operand starts with. -/
inductive Opening where
  | literal (value : Value)
  | name (name : String)
  | group | array | map

def Opening.of? : Token → Option Opening
  | .ident text => some (.name text)
  | .symbol .leftParen => some .group
  | .symbol .leftBracket => some .array
  | .symbol .leftBrace => some .map
  | token => token.literal?.map .literal

namespace Routine

instance : Monad Routine where
  pure := .pure
  bind := .bind

def fail (expected : Expected) : Routine α := read fun _ => .refuse expected

def eat (symbol : Symbol) : Routine Bool := read fun next =>
  if next = some (.symbol symbol) then .take true else .leave false

def expect (symbol : Symbol) (expected : Expected) : Routine Unit := do
  if ← eat symbol then return ()
  else fail expected

def ident (expected : Expected) : Routine String := read fun
  | some (.ident name) => .take name
  | _ => .refuse expected

def operator? (operators : Symbol → Option α) : Routine (Option α) := read fun
  | some (.symbol symbol) =>
    match operators symbol with
    | some op => .take (some op)
    | none => .leave none
  | _ => .leave none

def key : Routine String := read fun next =>
  match next.bind Token.key? with
  | some key => .take key
  | none => .refuse .mapKey

/-- Takes the first token of an operand. Any other token is taken too. -/
def opening : Routine Opening := read fun
  | some token =>
    match Opening.of? token with
    | some opening => .take opening
    | none => .discard .expression
  | none => .refuse .expression

/-- One turn of a loop, and the turns that follow. -/
def turn (step : α → Routine (Option α)) (value : α) : Routine α := do
  match ← step value with
  | some more => loop step more
  | none => return value

def sequence (item : Routine α) (close : Symbol) (expected : Expected) : Routine (List α) := do
  if ← eat close then return []
  else
    let first ← item
    let items ← loop (fun items => do
      if ← eat .comma then return some (items ++ [← item])
      else return none) [first]
    expect close expected
    return items

end Routine

open Routine (eat expect ident operator? call loop)

/-- The procedure for the operands of a level. -/
def Level.next : Level → Procedure Expr
  | disjunction => .binary .conjunction
  | conjunction => .binary .equality
  | equality => .binary .relational
  | relational => .binary .additive
  | additive => .binary .multiplicative
  | multiplicative => .unary

namespace Procedure

def memberTurn (receiver : Expr) : Routine (Option Expr) := do
  if ← eat .dot then
    let name ← ident .memberName
    if ← eat .leftParen then return some (.method receiver name (← call arguments))
    else return some (.property receiver name)
  else if ← eat .leftBracket then
    let key ← call conditional
    expect .rightBracket .closingBracket
    return some (.keyed receiver key)
  else if ← eat .leftParen then return some (.apply receiver (← call arguments))
  else return none

def argumentTurn (args : List Expr) : Routine (Option (List Expr)) := do
  if ← eat .colon then return some (args ++ [← call member])
  else return none

def pipeTurn (exp : Expr) : Routine (Option Expr) := do
  if ← eat .bar then
    let name ← ident .pipeName
    let args ← loop argumentTurn []
    return some (.pipe exp name args (← Routine.slot))
  else return none

def levelTurn (level : Level) (left : Expr) : Routine (Option Expr) := do
  match ← operator? level.operatorOf with
  | some op => return some (.binary op left (← call level.next))
  | none => return none

def entry : Routine (String × Expr) := do
  let key ← Routine.key
  expect .colon .colonAfterKey
  return (key, ← call conditional)

/-- An operand behind its first token. -/
def behind : Opening → Routine Expr
  | .literal value => return .literal value
  | .name name => do
    if ← eat .leftParen then return .method .implicit name (← call arguments)
    else return Expr.name name
  | .group => do
    let inner ← call conditional
    expect .rightParen .closingParen
    return inner
  | .array => return .array (← call (sequence .rightBracket .commaOrBracket))
  | .map => call map

/-- The routine of a procedure. -/
def body : Procedure α → Routine α
  | conditional => do
    let condition ← call (binary .disjunction)
    if ← eat .question then
      let yes ← call conditional
      expect .colon .colonInConditional
      return .conditional condition yes (← call conditional)
    else return condition
  | binary level => do loop (levelTurn level) (← call level.next)
  | unary => do
    match ← operator? signOf with
    | some op => return .unary op (← call unary)
    | none => call pipe
  | pipe => do loop pipeTurn (← call member)
  | member => do loop memberTurn (← call primary)
  | primary => do
    let first ← Routine.opening
    behind first
  | arguments => call (sequence .rightParen .commaOrParen)
  | sequence close expected => Routine.sequence (call conditional) close expected
  | map => return .map (← Routine.sequence entry .rightBrace .commaOrBrace)

end Procedure

namespace Routine

/-- A routine that starts at a cursor ends at another one, with a value or a fault. -/
inductive Ends : {α : Type} → Routine α → Cursor → Except Fault α → Cursor → Prop where
  | pure (value : α) (cursor : Cursor) : Ends (.pure value) cursor (.ok value) cursor
  | bind {first : Routine α} {next : α → Routine β} (found : Ends first cursor (.ok value) middle)
      (rest : Ends (next value) middle outcome after) : Ends (.bind first next) cursor outcome after
  | fault {first : Routine α} {next : α → Routine β}
      (failed : Ends first cursor (.error fault) after) :
    Ends (.bind first next) cursor (.error fault) after
  | read {judge : Option Token → Verdict α}
      (judged : (judge cursor.tokens.head?).run cursor = (outcome, after)) :
    Ends (.read judge) cursor outcome after
  | slot (cursor : Cursor) :
    Ends .slot cursor (.ok cursor.slots) { cursor with slots := cursor.slots + 1 }
  | call {procedure : Procedure α} (ran : Ends procedure.body cursor outcome after) :
    Ends (.call procedure) cursor outcome after
  | loop {step : α → Routine (Option α)} (ran : Ends (turn step value) cursor outcome after) :
    Ends (.loop step value) cursor outcome after

namespace Ends

variable {routine : Routine α} {cursor after : Cursor} {outcome : Except Fault α}

/-- A routine ends in one way at most. -/
theorem unique (ends : Ends routine cursor outcome after) {other : Except Fault α} {last : Cursor}
    (ends' : Ends routine cursor other last) : other = outcome ∧ last = after := by
  induction ends generalizing last with
  | pure | slot =>
    cases ends'
    exact ⟨rfl, rfl⟩
  | bind _ _ found rest =>
    cases ends' with
    | bind found' rest' =>
      obtain ⟨⟨⟩, rfl⟩ := found found'
      exact rest rest'
    | fault failed' => cases (found failed').1
  | fault _ failed =>
    cases ends' with
    | bind found' => cases (failed found').1
    | fault failed' =>
      obtain ⟨⟨⟩, rfl⟩ := failed failed'
      exact ⟨rfl, rfl⟩
  | read judged =>
    cases ends' with
    | read judged' =>
      rw [judged] at judged'
      cases judged'
      exact ⟨rfl, rfl⟩
  | call _ ran =>
    cases ends' with
    | call ran' => exact ran ran'
  | loop _ ran =>
    cases ends' with
    | loop ran' => exact ran ran'

theorem advance_suffix (cursor : Cursor) : cursor.advance.rest <:+ cursor.rest := List.tail_suffix _

/-- However a routine ends, what is left is a last part of what was. -/
theorem suffix (ends : Ends routine cursor outcome after) : after.rest <:+ cursor.rest := by
  induction ends with
  | pure | slot => exact List.suffix_refl _
  | bind _ _ found rest => exact rest.trans found
  | fault _ failed => exact failed
  | @read _ cursor _ _ judge judged =>
    cases verdict : judge cursor.tokens.head? <;> rw [verdict] at judged <;> cases judged
    · exact advance_suffix _
    · exact List.suffix_refl _
    · exact List.suffix_refl _
    · exact advance_suffix _
  | call _ ran => exact ran
  | loop _ ran => exact ran

theorem taken (ends : Ends routine cursor outcome after) :
    ∃ used, cursor.tokens = used ++ after.tokens := by
  obtain ⟨used, split⟩ := ends.suffix
  exact ⟨used.map Spanned.token, Cursor.tokens_split split⟩

/-- What a routine gives depends on the slot at its start, the tokens it takes and the one behind them. -/
theorem foresight (ends : Ends routine cursor outcome after) {value : α} (found : outcome = .ok value)
    {used rest : List Token} (split : cursor.tokens = used ++ after.tokens)
    (same : rest.head? = after.tokens.head?) {other : Cursor}
    (here : Parse.At (used ++ rest, cursor.slots) other) :
    ∃ last, Ends routine other (.ok value) last ∧ Parse.At (rest, after.slots) last := by
  induction ends generalizing used rest other with
  | pure =>
    cases found
    obtain rfl := List.append_cancel_right (split.symm.trans (List.nil_append _).symm)
    exact ⟨other, .pure _ _, here⟩
  | slot =>
    cases found
    obtain rfl := List.append_cancel_right (split.symm.trans (List.nil_append _).symm)
    obtain ⟨left, slots⟩ := here
    have numbered := Ends.slot other
    rw [show other.slots = _ from slots] at numbered
    exact ⟨_, numbered, left, rfl⟩
  | bind first second first_ih second_ih =>
    obtain ⟨early, split'⟩ := first.taken
    obtain ⟨late, split''⟩ := second.taken
    obtain rfl : used = early ++ late := by
      rw [split', split'', ← List.append_assoc] at split
      exact (List.append_cancel_right split).symm
    rw [List.append_assoc] at here
    -- The token behind the first part is the first one of the second, or the one behind both.
    obtain ⟨middle, ends, there⟩ := first_ih rfl split'
      (by rw [split'', List.head?_append, List.head?_append, same]) here
    obtain ⟨last, ends', there'⟩ := second_ih found split'' same there
    exact ⟨last, .bind ends ends', there'⟩
  | fault => cases found
  | @read _ cursor _ _ judge judged =>
    cases found
    have next : other.tokens.head? = cursor.tokens.head? := by
      rw [here.1, split, List.head?_append, List.head?_append, same]
    obtain ⟨left, slots⟩ := here
    obtain ⟨verdict, rfl⟩ | ⟨verdict, rfl⟩ := Verdict.run_ok judged
    · rw [cursor.advance_tokens] at split same
      refine ⟨other.advance, .read (by rw [next, verdict]; rfl), ?_, slots⟩
      rw [other.advance_tokens, show other.tokens = _ from left]
      cases all : cursor.tokens with
      | nil =>
        rw [all] at split same
        obtain ⟨rfl, -⟩ := List.append_eq_nil_iff.mp split.symm
        rw [List.head?_eq_none_iff.mp same]
        rfl
      | cons token tail =>
        rw [all] at split
        obtain rfl : [token] = used := List.append_cancel_right split
        rfl
    · obtain rfl := List.append_cancel_right (split.symm.trans (List.nil_append _).symm)
      exact ⟨other, .read (by rw [next, verdict]; rfl), left, slots⟩
  | call _ ran =>
    obtain ⟨last, ends, there⟩ := ran found split same here
    exact ⟨last, .call ends, there⟩
  | loop _ ran =>
    obtain ⟨last, ends, there⟩ := ran found split same here
    exact ⟨last, .loop ends, there⟩

end Ends

/-- A routine that gives a value has taken tokens which are in a relation with it. -/
def Takes (R : α → List Token → Prop) (routine : Routine α) : Prop :=
  ∀ cursor value after, Ends routine cursor (.ok value) after →
    ∃ used, cursor.tokens = used ++ after.tokens ∧ R value used

namespace Takes

variable {R : α → List Token → Prop} {S : β → List Token → Prop} {routine : Routine α}
  {next : α → Routine β} {sign : Symbol}

theorem any (routine : Routine α) : Takes (fun _ _ => True) routine := by
  intro cursor value after ends
  obtain ⟨used, split⟩ := ends.taken
  exact ⟨used, split, trivial⟩

theorem pure {value : α} (holds : R value []) : Takes R (pure value) := by
  intro cursor found after ends
  cases ends
  exact ⟨[], rfl, holds⟩

theorem bind (first : Takes R routine)
    (rest : ∀ value,
      Takes (fun found more => ∀ used, R value used → S found (used ++ more)) (next value)) :
    Takes S (routine >>= next) := by
  intro cursor found after ends
  cases ends with
  | bind ends ends' =>
    obtain ⟨used, split, related⟩ := first _ _ _ ends
    obtain ⟨more, split', related'⟩ := rest _ _ _ _ ends'
    exact ⟨used ++ more, by rw [split, split', List.append_assoc], related' used related⟩

theorem mono {T : α → List Token → Prop} (takes : Takes R routine)
    (implied : ∀ value used, R value used → T value used) : Takes T routine := by
  intro cursor value after ends
  obtain ⟨used, split, related⟩ := takes _ _ _ ends
  exact ⟨used, split, implied value used related⟩

/-- What follows does not give back what has been taken. -/
theorem first {T : β → List Token → Prop} (takes : Takes (fun _ used => used ≠ []) routine)
    (implied : ∀ found used, used ≠ [] → T found used) : Takes T (routine >>= next) :=
  takes.bind fun _ => (any _).mono fun found more _ _ some =>
    implied found _ (List.append_ne_nil_of_left_ne_nil some more)

theorem call {procedure : Procedure α} (takes : Takes R procedure.body) : Takes R (.call procedure) := by
  intro cursor value after ends
  cases ends with
  | call ran => exact takes _ _ _ ran

theorem read {judge : Option Token → Verdict α}
    (taken : ∀ token value, judge (some token) = .take value → R value [token])
    (ended : ∀ value, judge none ≠ .take value)
    (left : ∀ next value, judge next = .leave value → R value []) : Takes R (.read judge) := by
  intro cursor value after ends
  cases ends with
  | read judged =>
    obtain ⟨verdict, rfl⟩ | ⟨verdict, rfl⟩ := Verdict.run_ok judged
    · rw [cursor.advance_tokens]
      cases all : cursor.tokens with
      | nil =>
        rw [all] at verdict
        exact absurd verdict (ended value)
      | cons token rest =>
        rw [all] at verdict
        exact ⟨[token], rfl, taken token value verdict⟩
    · exact ⟨[], rfl, left _ value verdict⟩

theorem fail {expected : Expected} : Takes R (fail expected) := .read nofun nofun nofun

theorem eat : Takes (fun taken used => used = if taken then [.symbol sign] else []) (eat sign) := by
  refine .read (fun token taken verdict => ?_) nofun fun next taken verdict => ?_
  · split at verdict <;> cases verdict
    rename_i same
    rw [Option.some.inj same]
    rfl
  · split at verdict <;> cases verdict
    rfl

theorem expect {expected : Expected} :
    Takes (fun _ used => used = [.symbol sign]) (expect sign expected) := by
  refine .bind .eat fun here => ?_
  cases here with
  | true => exact .pure fun used taken => by simpa using taken
  | false => exact .fail

theorem operator? {operators : Symbol → Option α} :
    Takes (fun op used => if op.isSome then used ≠ [] else used = []) (operator? operators) := by
  refine .read (fun token op verdict => ?_) nofun fun next op verdict => ?_
  · split at verdict
    · split at verdict <;> cases verdict
      nofun
    · cases verdict
  · split at verdict
    · split at verdict <;> cases verdict
      rfl
    · cases verdict
      rfl

theorem opening : Takes (fun _ used => used ≠ []) opening := by
  refine .read (fun _ _ _ => nofun) nofun fun next first verdict => ?_
  split at verdict
  · split at verdict <;> cases verdict
  · cases verdict

end Takes
end Routine
end Grammar
end ChangeWatch
