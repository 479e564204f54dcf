import ChangeWatch.Proofs.Grammar.Procedures

/-!
The expression parser ends. A token has been taken whenever it goes back to the loosest level or repeats a
step, so the tokens that are left bound how far it goes, and the bounded parsers find what its procedures
find.
-/
namespace ChangeWatch

theorem Cursor.length_split {cursor after : Cursor} {used : List Token}
    (split : cursor.tokens = used ++ after.tokens) :
    cursor.rest.length = used.length + after.rest.length := by
  simpa [Cursor.tokens] using congrArg List.length split

namespace Parse

variable {p : Parse α} {next : α → Parse β} {cursor after : Cursor}

theorem bind_of_ok {value : α} (ran : p cursor = .ok (value, after)) :
    (p >>= next) cursor = next value after := by
  simp only [Bind.bind, StateT.bind, Except.bind, ran]

theorem bind_of_error {fault : Fault} (ran : p cursor = .error fault) :
    (p >>= next) cursor = .error fault := by
  simp only [Bind.bind, StateT.bind, Except.bind, ran]

end Parse

namespace Grammar

open Token (symbol)

/-- What a verdict is for a parser, which keeps no cursor when it fails. -/
def Verdict.told (cursor : Cursor) (verdict : Verdict α) : Except Fault (α × Cursor) :=
  (verdict.run cursor).1.map (·, (verdict.run cursor).2)

namespace Routine

/-- A step of a loop that ends: when it adds something it has taken a token, and where no token is left it
adds nothing. -/
structure IsStep (step : Routine (Option α)) : Prop where
  takes : Takes (fun added used => added ≠ none → used ≠ []) step
  exhausted (slots : Nat) : Ends step { rest := [], slots } (.ok none) { rest := [], slots }

namespace IsStep

theorem nothing : IsStep (pure none : Routine (Option α)) where
  takes := .pure nofun
  exhausted _ := .pure _ _

theorem ifEat {sign : Symbol} {yes no : Routine (Option α)} (other : IsStep no) :
    IsStep (do if ← eat sign then yes else no) where
  takes := by
    refine .bind .eat fun taken => ?_
    cases taken with
    | true => exact (Takes.any yes).mono fun _ _ _ used here _ => by simp [here]
    | false => exact other.takes.mono fun added more advances used here => by simpa [here] using advances
  exhausted slots := .bind (.read rfl) (other.exhausted slots)

theorem operator? {operators : Symbol → Option β} {next : Option β → Routine (Option α)}
    (other : next none = pure none) : IsStep (Routine.operator? operators >>= next) where
  takes := by
    refine .bind .operator? fun op => ?_
    cases op with
    | some op =>
      exact (Takes.any (next op)).mono fun _ more _ _ some _ => List.append_ne_nil_of_left_ne_nil some more
    | none => exact other ▸ .pure fun _ _ => nofun
  exhausted _ := .bind (.read rfl) (other ▸ .pure _ _)

end IsStep

/-- Where fewer tokens are left than a bound, a routine ends as a parser says. -/
def Realizes (bound : Nat) (routine : Routine α) (p : Parse α) : Prop :=
  ∀ cursor, cursor.rest.length < bound → ∃ outcome after,
    Ends routine cursor outcome after ∧ p cursor = outcome.map (·, after)

namespace Realizes

variable {bound : Nat} {routine : Routine α} {p : Parse α} {next : α → Routine β}
  {q : α → Parse β}

theorem mono {lower : Nat} (realizes : Realizes bound routine p) (le : lower ≤ bound) :
    Realizes lower routine p :=
  fun cursor fits => realizes cursor (Nat.lt_of_lt_of_le fits le)

theorem pure (value : α) : Realizes bound (Pure.pure value) (Pure.pure value) :=
  fun cursor _ => ⟨.ok value, cursor, .pure value cursor, rfl⟩

/-- What has been taken counts for what follows. -/
theorem bind {R : α → List Token → Prop} (first : Realizes bound routine p) (takes : Takes R routine)
    (rest : ∀ value used, R value used → Realizes (bound - used.length) (next value) (q value)) :
    Realizes bound (routine >>= next) (p >>= q) := by
  intro cursor fits
  obtain ⟨outcome, middle, ends, same⟩ := first cursor fits
  cases outcome with
  | error fault => exact ⟨.error fault, middle, .fault ends, Parse.bind_of_error same⟩
  | ok value =>
    obtain ⟨used, split, related⟩ := takes _ _ _ ends
    have length := Cursor.length_split split
    obtain ⟨outcome, after, ends', same'⟩ := rest value used related middle (by omega)
    exact ⟨outcome, after, .bind ends ends', (Parse.bind_of_ok same).trans same'⟩

theorem seq (first : Realizes bound routine p) (rest : ∀ value, Realizes bound (next value) (q value)) :
    Realizes bound (routine >>= next) (p >>= q) :=
  first.bind (.any routine) fun value _ _ => (rest value).mono (Nat.sub_le _ _)

/-- A parser that looks at the next token is told by what it makes of each token, and of their end. -/
theorem read {judge : Option Token → Verdict α}
    (ended : ∀ slots, p { rest := [], slots } = (judge none).told { rest := [], slots })
    (next : ∀ token start stop rest slots, p { rest := ⟨token, start, stop⟩ :: rest, slots } =
      (judge (some token)).told { rest := ⟨token, start, stop⟩ :: rest, slots }) :
    Realizes bound (.read judge) p := by
  rintro ⟨rest, slots⟩ -
  cases rest with
  | nil => exact ⟨_, _, .read rfl, ended slots⟩
  | cons first rest => exact ⟨_, _, .read rfl, next first.token first.start first.stop rest slots⟩

theorem call {procedure : Procedure α} (realizes : Realizes bound procedure.body p) :
    Realizes bound (.call procedure) p := by
  intro cursor fits
  obtain ⟨outcome, after, ends, same⟩ := realizes cursor fits
  exact ⟨outcome, after, .call ends, same⟩

theorem fail (expected : Expected) :
    Realizes bound (fail expected : Routine α) (Parse.unexpected expected) :=
  .read (fun _ => rfl) fun _ _ _ _ _ => rfl

theorem eat (symbol : Symbol) : Realizes bound (eat symbol) (Parse.eat symbol) := by
  refine .read (fun _ => rfl) fun token start stop rest slots => ?_
  by_cases same : token = .symbol symbol
  · simp [Parse.eat, same, Verdict.told, Verdict.run, Cursor.advance, Except.map]
  · simp [Parse.eat, same, Verdict.told, Verdict.run, Except.map]

theorem ifEat {symbol : Symbol} {yes no : Routine α} {yes' no' : Parse α}
    (taken : Realizes (bound - 1) yes yes') (left : Realizes bound no no') :
    Realizes bound (do if ← Routine.eat symbol then yes else no)
      (do if ← Parse.eat symbol then yes' else no') := by
  refine (eat symbol).bind .eat fun here used same => ?_
  cases here with
  | true => exact same ▸ taken
  | false => exact same ▸ left

theorem expect (symbol : Symbol) (expected : Expected) :
    Realizes bound (expect symbol expected) (Parse.expect symbol expected) :=
  .ifEat (.pure ()) (fail expected)

theorem ident (expected : Expected) : Realizes bound (ident expected) (Parse.ident expected) :=
  .read (fun _ => rfl) fun token _ _ _ _ => by cases token <;> rfl

theorem operator? (operators : Symbol → Option α) :
    Realizes bound (operator? operators) (Parse.operator? operators) := by
  refine .read (fun _ => rfl) fun token start stop rest slots => ?_
  cases token with
  | symbol sign =>
    cases known : operators sign <;>
      simp [Parse.operator?, known, Verdict.told, Verdict.run, Cursor.advance, Except.map]
  | _ => rfl

theorem key : Realizes bound key Grammar.entry.key :=
  .read (fun _ => rfl) fun token _ _ _ _ => by cases token <;> rfl

theorem slot : Realizes bound slot Parse.slot := fun cursor _ => ⟨_, _, .slot cursor, rfl⟩

/-- A loop ends, and its turns are no more than the tokens that are left. -/
theorem loop {step : α → Routine (Option α)} {step' : α → Parse (Option α)}
    (isStep : ∀ value, IsStep (step value)) (steps : ∀ value, Realizes bound (step value) (step' value))
    (value : α) : Realizes bound (loop step value) (Parse.extend step' value) := by
  have repeated (turns : Nat) : ∀ value cursor, cursor.rest.length ≤ turns →
      cursor.rest.length < bound → ∃ outcome after, Ends (.loop step value) cursor outcome after ∧
        Parse.iterate step' turns value cursor = outcome.map (·, after) := by
    induction turns with
    | zero =>
      rintro value ⟨rest, slots⟩ few fits
      obtain rfl : rest = [] := List.length_eq_zero_iff.mp (Nat.le_zero.mp few)
      exact ⟨.ok value, _, .loop (.bind ((isStep value).exhausted slots) (.pure _ _)), rfl⟩
    | succ turns ih =>
      intro value cursor few fits
      obtain ⟨outcome, middle, ends, same⟩ := steps value cursor fits
      match outcome with
      | .error fault => exact ⟨.error fault, middle, .loop (.fault ends), Parse.bind_of_error same⟩
      | .ok none => exact ⟨.ok value, middle, .loop (.bind ends (.pure _ _)), Parse.bind_of_ok same⟩
      | .ok (some more) =>
        obtain ⟨used, split, advances⟩ := (isStep value).takes _ _ _ ends
        have taken := List.length_pos_iff.mpr (advances nofun)
        have length := Cursor.length_split split
        obtain ⟨outcome, after, ends', same'⟩ := ih more middle (by omega) (by omega)
        exact ⟨outcome, after, .loop (.bind ends ends'), (Parse.bind_of_ok same).trans same'⟩
  exact fun cursor fits => repeated cursor.rest.length value cursor (Nat.le_refl _) fits

theorem sequence {item : Routine α} {item' : Parse α} (items : Realizes bound item item') (close : Symbol)
    (expected : Expected) :
    Realizes bound (sequence item close expected) (Parse.sequence item' close expected) := by
  refine .ifEat (.pure []) (items.seq fun first => ?_)
  refine .seq (.loop (fun values => .ifEat .nothing) (fun values => ?_) [first]) fun values =>
    (expect close expected).seq fun _ => .pure values
  refine .ifEat (.seq (items.mono (Nat.sub_le _ _)) fun value => ?_) (.pure none)
  exact .pure (some (values ++ [value]))

end Realizes
end Routine

/-- What holds of the signs in front of an operand, and goes on from each level to the next looser one. -/
theorem Level.from_tightest {P : Level → Prop} (multiplicative : P .multiplicative)
    (looser : ∀ level tighter, level.next = .binary tighter → P tighter → P level) (level : Level) :
    P level := by
  have additive := looser .additive _ rfl multiplicative
  have relational := looser .relational _ rfl additive
  have equality := looser .equality _ rfl relational
  have conjunction := looser .conjunction _ rfl equality
  cases level with
  | disjunction => exact looser .disjunction _ rfl conjunction
  | _ => assumption

namespace Procedure

open Routine (Ends IsStep Realizes Takes)
open Parse (iterate)

/-- An operand behind the signs that have been found in front of it. -/
def behindSigns (nested : Parse Expr) (signs : List UnaryOp) : Parse Expr := do
  return signs.foldr Expr.unary (← pipeline nested)

section Nested

variable {bound : Nat} {nested : Parse Expr} (inner : Realizes bound (.call conditional) nested)
include inner

theorem arguments_realizes : Realizes bound (.call arguments) (Grammar.arguments nested) :=
  .call (.call (.sequence inner _ _))

theorem entry_realizes : Realizes bound entry (Grammar.entry nested) :=
  .seq .key fun key => .seq (.expect _ _) fun _ => inner.seq fun e => .pure (key, e)

theorem behind_realizes {first : Spanned} {opening : Opening}
    (known : Opening.of? first.token = some opening) :
    Realizes bound (behind opening) (primaryAfter nested first) := by
  obtain ⟨token, _, _⟩ := first
  cases token with
  | keyword word => cases word <;> cases known <;> exact .pure _
  | int | float | str =>
    cases known
    exact .pure _
  | ident name =>
    cases known
    refine .ifEat (.seq ((arguments_realizes inner).mono (Nat.sub_le _ _)) fun args => ?_) (.pure _)
    exact .pure (Expr.method .implicit name args)
  | symbol sign =>
    cases sign with
    | leftParen =>
      cases known
      exact inner.seq fun e => .seq (.expect _ _) fun _ => .pure e
    | leftBracket =>
      cases known
      exact .seq (.call (.sequence inner _ _)) fun items => .pure (Expr.array items)
    | leftBrace =>
      cases known
      exact .call (.seq (.sequence (entry_realizes inner) _ _) fun entries => .pure (Expr.map entries))
    | _ => cases known

omit inner in
/-- A token that no operand starts with is to blame, and has been taken. -/
theorem primaryAfter_refused {first : Spanned} (unknown : Opening.of? first.token = none) :
    primaryAfter nested first = fun _ => .error (.unexpectedToken first.token .expression first.start) := by
  obtain ⟨token, _, _⟩ := first
  cases token with
  | keyword word => cases word <;> cases unknown
  | int | float | str | ident => cases unknown
  | symbol sign => cases sign <;> first | rfl | cases unknown

theorem primary_realizes : Realizes (bound + 1) (.call primary) (Grammar.primary nested) := by
  rintro ⟨rest, slots⟩ fits
  cases rest with
  | nil => exact ⟨.error (.unexpectedEnd .expression), _, .call (.fault (.read rfl)), rfl⟩
  | cons first rest =>
    cases known : Opening.of? first.token with
    | none =>
      have discarded : Ends Routine.opening { rest := first :: rest, slots }
          (.error (.unexpectedToken first.token .expression first.start)) { rest, slots } :=
        .read (by simp only [Cursor.tokens, List.map_cons, List.head?_cons, known]; rfl)
      exact ⟨_, _, .call (.fault discarded), congrFun (primaryAfter_refused known) _⟩
    | some opening =>
      have taken : Ends Routine.opening { rest := first :: rest, slots } (.ok opening) { rest, slots } :=
        .read (by simp only [Cursor.tokens, List.map_cons, List.head?_cons, known]; rfl)
      obtain ⟨outcome, after, ends, same⟩ := behind_realizes inner known { rest, slots }
        (Nat.lt_of_succ_lt_succ fits)
      exact ⟨outcome, after, .call (.bind taken ends), same⟩

theorem member_realizes : Realizes (bound + 1) (.call member) (Grammar.member nested) := by
  have isStep (receiver : Expr) : IsStep (memberTurn receiver) := .ifEat (.ifEat (.ifEat .nothing))
  refine .call ((primary_realizes inner).seq fun receiver => .loop isStep (fun receiver => ?_) receiver)
  refine .ifEat ?_ (.ifEat ?_ (.ifEat ?_ (.pure none)))
  · refine .seq (.ident _) fun name => .ifEat (.seq ?_ fun args => ?_) ?_
    · exact (arguments_realizes inner).mono (by omega)
    · exact .pure (some (Expr.method receiver name args))
    · exact .pure (some (Expr.property receiver name))
  · refine inner.seq fun key => .seq (.expect _ _) fun _ => ?_
    exact .pure (some (Expr.keyed receiver key))
  · refine (arguments_realizes inner).seq fun args => ?_
    exact .pure (some (Expr.apply receiver args))

theorem pipeArguments_realizes : Realizes bound (Routine.loop argumentTurn []) (pipeArguments nested) := by
  refine .loop (fun _ => .ifEat .nothing) (fun args => .ifEat (.seq ?_ fun arg => ?_) (.pure none)) []
  · exact (member_realizes inner).mono (by omega)
  · exact .pure (some (args ++ [arg]))

theorem pipe_realizes : Realizes (bound + 1) (.call pipe) (pipeline nested) := by
  refine .call ((member_realizes inner).seq fun exp => .loop (fun _ => .ifEat .nothing) (fun exp => ?_) exp)
  refine .ifEat (.seq (.ident _) fun name => ?_) (.pure none)
  refine .seq (pipeArguments_realizes inner) fun args => ?_
  exact .seq .slot fun number => .pure (some (Expr.pipe exp name args number))

omit inner in
theorem signStep_gives (signs : List UnaryOp) {cursor after : Cursor} {op : Option UnaryOp}
    (ran : Parse.operator? signOf cursor = .ok (op, after)) :
    signStep signs cursor = .ok (op.map fun op => signs ++ [op], after) := by
  rw [signStep, Parse.bind_of_ok ran]
  cases op <;> rfl

/-- No sign is left, so an operand comes next. -/
theorem unsigned_realizes (signs : List UnaryOp) {cursor middle : Cursor}
    (fits : middle.rest.length < bound + 1)
    (none : Ends (Routine.operator? signOf) cursor (.ok none) middle) :
    ∃ outcome after, Ends (.call unary) cursor outcome after ∧
      behindSigns nested signs middle = outcome.map fun e => (signs.foldr Expr.unary e, after) := by
  obtain ⟨outcome, after, ends, same⟩ := pipe_realizes inner middle fits
  refine ⟨outcome, after, .call (.bind none ends), ?_⟩
  cases outcome with
  | error => exact Parse.bind_of_error same
  | ok => exact Parse.bind_of_ok same

/-- A sign that has been found is in the list of the parser; the procedure has a call for it that has not
ended yet. -/
theorem signs_realize (turns : Nat) (signs : List UnaryOp) (cursor : Cursor)
    (few : cursor.rest.length ≤ turns) (fits : cursor.rest.length < bound + 1) :
    ∃ outcome after, Ends (.call unary) cursor outcome after ∧
      (iterate signStep turns signs >>= behindSigns nested) cursor =
        outcome.map fun e => (signs.foldr Expr.unary e, after) := by
  induction turns generalizing signs cursor with
  | zero =>
    obtain ⟨rest, slots⟩ := cursor
    obtain rfl : rest = [] := List.length_eq_zero_iff.mp (Nat.le_zero.mp few)
    exact unsigned_realizes inner signs fits (.read rfl)
  | succ turns ih =>
    obtain ⟨sign, middle, ends, same⟩ := Realizes.operator? signOf cursor fits
    have shorter := ends.suffix.length_le
    match sign with
    | .error fault =>
      have failed : signStep signs cursor = .error fault := Parse.bind_of_error same
      exact ⟨.error fault, middle, .call (.fault ends),
        Parse.bind_of_error (Parse.bind_of_error failed)⟩
    | .ok none =>
      obtain ⟨outcome, after, ends', same'⟩ := unsigned_realizes inner signs (by omega) ends
      have none : iterate signStep (turns + 1) signs cursor = .ok (signs, middle) :=
        Parse.bind_of_ok (signStep_gives signs same)
      exact ⟨outcome, after, ends', (Parse.bind_of_ok none).trans same'⟩
    | .ok (some op) =>
      obtain ⟨used, split, some⟩ := Takes.operator? _ _ _ ends
      have taken := List.length_pos_iff.mpr some
      have length := Cursor.length_split split
      obtain ⟨outcome, after, ends', same'⟩ := ih (signs ++ [op]) middle (by omega) (by omega)
      have goes : (iterate signStep (turns + 1) signs >>= behindSigns nested) cursor =
          (iterate signStep turns (signs ++ [op]) >>= behindSigns nested) middle := by
        rw [iterate, bind_assoc]
        exact Parse.bind_of_ok (signStep_gives signs same)
      refine ⟨outcome.map (Expr.unary op), after, .call (.bind ends ?_), ?_⟩
      · cases outcome with
        | error => exact .fault ends'
        | ok => exact .bind ends' (.pure _ _)
      · rw [goes, same']
        cases outcome with
        | error => rfl
        | ok => simp [Except.map]

theorem unary_realizes : Realizes (bound + 1) (.call unary) (signed nested) :=
  fun cursor fits => signs_realize inner cursor.rest.length [] cursor (Nat.le_refl _) fits

omit inner in
theorem binary_realizes {level : Level}
    (operands : Realizes bound (.call level.next) (level.tighter nested)) :
    Realizes bound (.call (binary level)) (level.parser nested) := by
  have isStep (left : Expr) : IsStep (levelTurn level left) := .operator? rfl
  refine .call (operands.seq fun left => .loop isStep (fun left => ?_) left)
  refine .seq (.operator? level.operatorOf) fun op => ?_
  cases op with
  | none => exact .pure none
  | some op => exact operands.seq fun right => .pure (some (Expr.binary op left right))

theorem next_realizes (level : Level) :
    Realizes (bound + 1) (.call level.next) (level.tighter nested) := by
  induction level using Level.from_tightest with
  | multiplicative => exact unary_realizes inner
  | looser level tighter same realizes => cases level <;> cases same <;> exact binary_realizes realizes

theorem conditional_realizes :
    Realizes (bound + 1) (.call conditional) (Grammar.conditional nested) := by
  refine .call ((binary_realizes (next_realizes inner .disjunction)).seq fun condition => ?_)
  refine .ifEat (inner.seq fun yes => .seq (.expect _ _) fun _ => inner.seq fun no => ?_) (.pure condition)
  exact .pure (Expr.conditional condition yes no)

end Nested

theorem expressionWithin_realizes (depth : Nat) :
    Realizes depth (.call conditional) (expressionWithin depth) := by
  induction depth with
  | zero => exact fun _ fits => nomatch fits
  | succ depth ih => exact conditional_realizes ih

theorem expression_realizes (bound : Nat) : Realizes bound (.call conditional) expression :=
  fun cursor _ => expressionWithin_realizes (cursor.rest.length + 1) cursor (Nat.lt_succ_self _)

/-- The bounds are never reached: the loosest level is nested in itself. -/
theorem expression_eq : expression = Grammar.conditional expression := by
  funext cursor
  have inner := expression_realizes (cursor.rest.length + 1)
  obtain ⟨outcome, after, ends, same⟩ := inner cursor (Nat.lt_succ_self _)
  obtain ⟨found, last, ends', same'⟩ := conditional_realizes inner cursor (by omega)
  obtain ⟨rfl, rfl⟩ := ends.unique ends'
  rw [same, same']

/-- The bounded parser of a procedure. -/
def parser : Procedure α → Parse α
  | conditional => expression
  | binary level => level.parser expression
  | unary => signed expression
  | pipe => pipeline expression
  | member => Grammar.member expression
  | primary => Grammar.primary expression
  | arguments => Grammar.arguments expression
  | sequence close expected => Parse.sequence expression close expected
  | map => return .map (← Parse.sequence (Grammar.entry expression) .rightBrace .commaOrBrace)

theorem realizes (procedure : Procedure α) (cursor : Cursor) :
    ∃ outcome after, Ends (.call procedure) cursor outcome after ∧
      procedure.parser cursor = outcome.map (·, after) := by
  have inner (bound : Nat) := expression_realizes bound
  have each : Realizes (cursor.rest.length + 1) (.call procedure) procedure.parser := by
    cases procedure with
    | conditional => exact inner _
    | binary level => exact binary_realizes (next_realizes (inner _) level)
    | unary => exact unary_realizes (inner _)
    | pipe => exact pipe_realizes (inner _)
    | member => exact member_realizes (inner _)
    | primary => exact primary_realizes (inner _)
    | arguments => exact arguments_realizes (inner _)
    | sequence close expected => exact .call (.sequence (inner _) close expected)
    | map =>
      have entries := entry_realizes (inner (cursor.rest.length + 1))
      exact .call (.seq (.sequence entries _ _) fun entries => .pure (Expr.map entries))
  exact each cursor (Nat.lt_succ_self _)

theorem sequence_closes {item : Routine α} (close : Symbol) (expected : Expected) :
    Takes (fun _ used => used.getLast? = some (symbol close)) (Routine.sequence item close expected) := by
  refine .bind .eat fun closed => ?_
  cases closed with
  | true => exact .pure fun used taken => by simp [taken]
  | false =>
    refine .bind (.any item) fun first => .bind (.any _) fun items => .bind .expect fun _ => .pure ?_
    intro used taken _ _ _ _ _ _
    simp [taken]

/-- What a procedure has taken when it gives something: a token at least, or all up to its closing one. -/
def Used : Procedure α → List Token → Prop
  | arguments, used => used.getLast? = some (symbol .rightParen)
  | sequence close _, used => used.getLast? = some (symbol close)
  | map, used => used.getLast? = some (symbol .rightBrace)
  | _, used => used ≠ []

theorem takes (procedure : Procedure α) : Takes (fun _ => procedure.Used) (.call procedure) := by
  have primary : Takes (fun _ used => used ≠ []) (.call primary) := .call (.first .opening fun _ _ => id)
  have member : Takes (fun _ used => used ≠ []) (.call member) := .call (.first primary fun _ _ => id)
  have pipe : Takes (fun _ used => used ≠ []) (.call pipe) := .call (.first member fun _ _ => id)
  have unary : Takes (fun _ used => used ≠ []) (.call unary) := by
    refine .call (.bind .operator? fun sign => ?_)
    cases sign with
    | none => exact pipe.mono fun _ more some used _ => List.append_ne_nil_of_right_ne_nil used some
    | some op =>
      exact (Takes.any _).mono fun _ more _ _ some => List.append_ne_nil_of_left_ne_nil some more
  have next (level : Level) : Takes (fun _ used => used ≠ []) (.call level.next) := by
    induction level using Level.from_tightest with
    | multiplicative => exact unary
    | looser level tighter same takes => exact same ▸ .call (.first takes fun _ _ => id)
  have binary (level : Level) : Takes (fun _ used => used ≠ []) (.call (binary level)) :=
    .call (.first (next level) fun _ _ => id)
  cases procedure with
  | conditional => exact .call (.first (binary .disjunction) fun _ _ => id)
  | binary level => exact binary level
  | unary => exact unary
  | pipe => exact pipe
  | member => exact member
  | primary => exact primary
  | arguments => exact .call (.call (sequence_closes _ _))
  | sequence close expected => exact .call (sequence_closes _ _)
  | map =>
    refine .call (.bind (sequence_closes _ _) fun entries => .pure fun used closed => ?_)
    rwa [List.append_nil]

theorem parser_eq {procedure : Procedure α} {cursor after : Cursor} {outcome : Except Fault α}
    (ends : Ends (.call procedure) cursor outcome after) :
    procedure.parser cursor = outcome.map (·, after) := by
  obtain ⟨found, last, ends', same⟩ := procedure.realizes cursor
  obtain ⟨rfl, rfl⟩ := ends.unique ends'
  exact same

/-- Whatever tokens are left, a procedure ends, and in one way; the bounded parser finds what it finds. It
stays within the tokens. When it gives something, it has taken what it has to, and it gives the same
wherever it starts with the same slot and finds the same tokens up to the one behind those it takes. -/
theorem ends_within_tokens (procedure : Procedure α) (cursor : Cursor) :
    ∃ outcome after, Ends (.call procedure) cursor outcome after ∧
      (∀ other last, Ends (.call procedure) cursor other last → other = outcome ∧ last = after) ∧
      procedure.parser cursor = outcome.map (·, after) ∧
      ∃ used, cursor.rest = used ++ after.rest ∧ ∀ value, outcome = .ok value →
        procedure.Used (used.map Spanned.token) ∧
        ∀ rest : List Token, rest.head? = after.tokens.head? →
          Parse.Gives procedure.parser (used.map Spanned.token ++ rest, cursor.slots) value
            (rest, after.slots) := by
  obtain ⟨outcome, after, ends, same⟩ := procedure.realizes cursor
  obtain ⟨used, split⟩ := ends.suffix
  refine ⟨outcome, after, ends, fun other last => ends.unique, same, used, split.symm, ?_⟩
  rintro value rfl
  have tokens := Cursor.tokens_split split
  refine ⟨?_, fun rest next other here => ?_⟩
  · obtain ⟨taken, split', uses⟩ := procedure.takes cursor value after ends
    rwa [← List.append_cancel_right (tokens.symm.trans split')] at uses
  · obtain ⟨last, ends', there⟩ := ends.foresight rfl tokens next here
    exact ⟨last, parser_eq ends', there⟩

end Procedure
end Grammar
end ChangeWatch
