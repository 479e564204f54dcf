import ChangeWatch.Proofs.Grammar.Completeness

/-!
What the parser blames. A parser that fails has come to the end of the tokens, or it blames one of them, in
its place. Tokens are only taken, so those that are left are a last part of those that are given.
-/
namespace ChangeWatch

/-- Tokens have ended too early, or one of them stands where it may not. -/
inductive Fault.Blamed (tokens : List Spanned) : Fault → Prop where
  | ended (expected : Expected) : Blamed tokens (.unexpectedEnd expected)
  | token {token : Spanned} (member : token ∈ tokens) (expected : Expected) :
      Blamed tokens (.unexpectedToken token.token expected token.start)

namespace Parse

/-- A last part of some tokens is left, or one of them is to blame. -/
inductive Ends (tokens : List Spanned) : Except Fault (α × Cursor) → Prop where
  | left {value : α} {after : Cursor} (within : after.rest <:+ tokens) : Ends tokens (.ok (value, after))
  | failed {fault : Fault} (blamed : fault.Blamed tokens) : Ends tokens (.error fault)

/-- A parser that is given a last part of some tokens ends within them. -/
def Blames (tokens : List Spanned) (p : Parse α) : Prop :=
  ∀ cursor, cursor.rest <:+ tokens → Ends tokens (p cursor)

namespace Blames

variable {tokens : List Spanned} {p : Parse α} {next : α → Parse β}

theorem pure (value : α) : Blames tokens (pure value) := fun _ within => .left within

theorem bind (first : Blames tokens p) (rest : ∀ value, Blames tokens (next value)) :
    Blames tokens (p >>= next) := by
  intro cursor within
  have taken := first cursor within
  simp only [Bind.bind, StateT.bind, Except.bind]
  generalize p cursor = ended at taken
  cases taken with
  | left within => exact rest _ _ within
  | failed blamed => exact .failed blamed

theorem ite {yes no : Parse β} {condition : Prop} [Decidable condition] (taken : Blames tokens yes)
    (left : Blames tokens no) : Blames tokens (if condition then yes else no) := by
  split
  · exact taken
  · exact left

theorem unexpected (expected : Expected) : Blames tokens (unexpected expected : Parse α) := by
  rintro ⟨rest, slots⟩ within
  cases rest with
  | nil => exact .failed (.ended expected)
  | cons next rest => exact .failed (.token (within.subset List.mem_cons_self) expected)

theorem tail {first : Spanned} {rest : List Spanned} (within : first :: rest <:+ tokens) : rest <:+ tokens :=
  (List.suffix_cons first rest).trans within

theorem eat (symbol : Symbol) : Blames tokens (eat symbol) := by
  rintro ⟨rest, slots⟩ within
  cases rest with
  | nil => exact .left within
  | cons next rest =>
    simp only [Parse.eat]
    split
    · exact .left (tail within)
    · exact .left within

/-- A choice by whether a symbol comes next. -/
theorem ifEat {yes no : Parse β} {symbol : Symbol} (taken : Blames tokens yes) (left : Blames tokens no) :
    Blames tokens (do if ← Parse.eat symbol then yes else no) :=
  .bind (eat symbol) fun _ => .ite taken left

theorem expect (symbol : Symbol) (expected : Expected) : Blames tokens (expect symbol expected) :=
  .ifEat (.pure ()) (unexpected expected)

theorem ident (expected : Expected) : Blames tokens (ident expected) := by
  intro cursor within
  unfold Parse.ident
  split
  · rename_i same
    rw [same] at within
    exact .left (tail within)
  · exact unexpected expected cursor within

theorem operator? (operators : Symbol → Option α) : Blames tokens (operator? operators) := by
  intro cursor within
  unfold Parse.operator?
  split
  · rename_i same
    split
    · rw [same] at within
      exact .left (tail within)
    · exact .left within
  · exact .left within

theorem slot : Blames tokens slot := fun _ within => .left within

theorem extend {step : α → Parse (Option α)} (steps : ∀ value, Blames tokens (step value)) (value : α) :
    Blames tokens (extend step value) := by
  have repeated (count : Nat) : ∀ value, Blames tokens (iterate step count value) := by
    induction count with
    | zero => exact .pure
    | succ count ih =>
      intro value
      refine .bind (steps value) fun added => ?_
      cases added with
      | none => exact .pure value
      | some more => exact ih more
  exact fun cursor => repeated cursor.rest.length value cursor

theorem sequence {item : Parse α} (items : Blames tokens item) (close : Symbol) (expected : Expected) :
    Blames tokens (sequence item close expected) := by
  refine .ifEat (.pure []) (.bind items fun first => ?_)
  refine .bind (extend (fun values => ?_) [first]) fun values => ?_
  · exact .ifEat (.bind items fun value => .pure (some (values ++ [value]))) (.pure none)
  · exact .bind (expect close expected) fun _ => .pure values

end Blames
end Parse

namespace Grammar

open Parse (Blames)

variable {tokens : List Spanned} {nested : Parse Expr} (inner : Blames tokens nested)
include inner

theorem arguments_blames : Blames tokens (arguments nested) := .sequence inner _ _

theorem entry_blames : Blames tokens (entry nested) := by
  have key : Blames tokens entry.key := by
    intro cursor within
    unfold entry.key
    split
    case h_3 => exact Blames.unexpected _ cursor within
    all_goals
      rename_i same
      rw [same] at within
      exact .left (Blames.tail within)
  exact .bind key fun name => .bind (.expect _ _) fun _ => .bind inner fun e => .pure (name, e)

/-- A symbol that starts no operand is to blame itself, behind it. -/
theorem primaryAfter_blames {first : Spanned} (member : first ∈ tokens) :
    Blames tokens (primaryAfter nested first) := by
  obtain ⟨token, start, stop⟩ := first
  have literal (value : Value) : Blames tokens (pure (.literal value) : Parse Expr) := .pure _
  cases token with
  | keyword word => cases word <;> exact literal _
  | int | float | str => exact literal _
  | ident name =>
    exact .ifEat (.bind (arguments_blames inner) fun args => .pure _)
      (.pure _)
  | symbol sign =>
    cases sign with
    | leftParen => exact .bind inner fun e => .bind (.expect _ _) fun _ => .pure e
    | leftBracket => exact .bind (.sequence inner _ _) fun items => .pure _
    | leftBrace => exact .bind (.sequence (entry_blames inner) _ _) fun entries => .pure _
    | _ => exact fun _ _ => .failed (.token member .expression)

theorem primary_blames : Blames tokens (primary nested) := by
  rintro ⟨rest, slots⟩ within
  cases rest with
  | nil => exact .failed (.ended .expression)
  | cons first rest =>
    have member := within.subset List.mem_cons_self
    exact primaryAfter_blames inner member { rest, slots } (Blames.tail within)

theorem member_blames : Blames tokens (member nested) := by
  refine .bind (primary_blames inner) fun receiver => .extend (fun receiver => ?_) receiver
  refine .ifEat (.bind (.ident _) fun name => ?_) (.ifEat ?_ (.ifEat ?_ (.pure none)))
  · refine .ifEat (.bind (arguments_blames inner) fun args => ?_) ?_
    · exact .pure _
    · exact .pure _
  · refine .bind inner fun key => .bind (.expect _ _) fun _ => ?_
    exact .pure _
  · exact .bind (arguments_blames inner) fun args => .pure _

theorem pipeArguments_blames : Blames tokens (pipeArguments nested) := by
  refine .extend (fun args => .ifEat (.bind (member_blames inner) fun arg => ?_) (.pure none)) []
  exact .pure (some (args ++ [arg]))

theorem pipeline_blames : Blames tokens (pipeline nested) := by
  refine .bind (member_blames inner) fun exp => .extend (fun exp => ?_) exp
  refine .ifEat (.bind (.ident _) fun name => ?_) (.pure none)
  refine .bind (pipeArguments_blames inner) fun args => .bind .slot fun slot => ?_
  exact .pure _

theorem signed_blames : Blames tokens (signed nested) := by
  have step (signs : List UnaryOp) : Blames tokens (signStep signs) := by
    refine .bind (.operator? signOf) fun sign => ?_
    cases sign with
    | none => exact .pure none
    | some op => exact .pure (some (signs ++ [op]))
  refine .bind (.extend step []) fun signs => .bind (pipeline_blames inner) fun e => ?_
  exact .pure (signs.foldr Expr.unary e)

omit inner in
theorem level_blames (operators : Symbol → Option BinaryOp) {operand : Parse Expr}
    (operands : Blames tokens operand) : Blames tokens (level operators operand) := by
  refine .bind operands fun left => .extend (fun left => ?_) left
  refine .bind (.operator? operators) fun op => ?_
  cases op with
  | none => exact .pure none
  | some op => exact .bind operands fun right => .pure _

theorem conditional_blames : Blames tokens (conditional nested) := by
  have additive := level_blames additiveOf (level_blames multiplicativeOf (signed_blames inner))
  have equality := level_blames equalityOf (level_blames relationalOf additive)
  refine .bind (level_blames disjunctionOf (level_blames conjunctionOf equality)) fun condition => ?_
  refine .ifEat (.bind inner fun yes => ?_) (.pure condition)
  refine .bind (.expect _ _) fun _ => .bind inner fun no => ?_
  exact .pure _

omit inner in
theorem expressionWithin_blames (depth : Nat) : Blames tokens (expressionWithin depth) := by
  induction depth with
  | zero => exact .unexpected .expression
  | succ depth ih => exact conditional_blames ih

omit inner in
theorem whole_blames : Blames tokens whole := by
  have expression : Blames tokens expression := fun cursor =>
    expressionWithin_blames (cursor.rest.length + 1) cursor
  refine .bind expression fun e cursor within => ?_
  split
  · exact .left within
  · exact Blames.unexpected .endOfExpression cursor within

end Grammar
end ChangeWatch
