import ChangeWatch.Proofs.Grammar.Completeness
import ChangeWatch.Proofs.Segments.Shifts

/-!
The grammar does not look at places: further to the right and behind other pipes, every level gives the same
tree with greater slots, or the same fault at a greater column. So it is with the parser of a whole text.
-/
namespace ChangeWatch

namespace Grammar

open Parse (Moves)
open ChangeWatch.Expr (raise raiseAll raiseEntries)

variable {distance slots : Nat} {nested : Parse Expr}
  (inner : Moves distance slots (raise slots) nested nested)
include inner

theorem items_moves (close : Symbol) (expected : Expected) :
    Moves distance slots (raiseAll slots) (Parse.sequence nested close expected)
      (Parse.sequence nested close expected) := by
  have moved := Moves.sequence inner close expected
  rwa [← funext Expr.raiseAll_eq] at moved

theorem entry_moves :
    Moves distance slots (fun entry => (entry.1, entry.2.raise slots)) (entry nested)
      (entry nested) := by
  have key : Moves distance slots id entry.key entry.key := by
    rintro ⟨rest, _⟩
    cases rest with
    | nil => rfl
    | cons token rest =>
      obtain ⟨token, _, _⟩ := token
      cases token <;> rfl
  exact .bind key fun name => .bind (.expect _ _) fun _ => .bind inner fun e => .pure (name, e)

theorem entries_moves (close : Symbol) (expected : Expected) :
    Moves distance slots (raiseEntries slots) (Parse.sequence (entry nested) close expected)
      (Parse.sequence (entry nested) close expected) := by
  have moved := Moves.sequence (entry_moves inner) close expected
  rwa [← funext Expr.raiseEntries_eq] at moved

theorem primaryAfter_moves (first : Spanned) :
    Moves distance slots (raise slots) (primaryAfter nested first)
      (primaryAfter nested (first.moved distance)) := by
  obtain ⟨token, _, _⟩ := first
  have literal (value : Value) : Moves distance slots (raise slots)
      (pure (.literal value) : Parse Expr) (pure (.literal value)) := .pure _
  cases token with
  | keyword word => cases word <;> exact literal _
  | int | float | str => exact literal _
  | ident name =>
    exact .ifEat (.bind (items_moves inner _ _) fun args => .pure (Expr.method .implicit name args))
      (.pure (Expr.name name))
  | symbol sign =>
    cases sign with
    | leftParen => exact .bind inner fun e => .bind (.expect _ _) fun _ => .pure e
    | leftBracket => exact .bind (items_moves inner _ _) fun items => .pure (Expr.array items)
    | leftBrace => exact .bind (entries_moves inner _ _) fun entries => .pure (Expr.map entries)
    | _ => exact fun _ => rfl

theorem primary_moves : Moves distance slots (raise slots) (primary nested) (primary nested) := by
  rintro ⟨rest, next⟩
  cases rest with
  | nil => rfl
  | cons first rest => exact primaryAfter_moves inner first { rest, slots := next }

theorem member_moves : Moves distance slots (raise slots) (member nested) (member nested) := by
  refine .bind (primary_moves inner) fun receiver => .extend (fun receiver => ?_) receiver
  refine .ifEat (.bind (.ident _) fun name => ?_) (.ifEat ?_ (.ifEat ?_ (.pure none)))
  · refine .ifEat (.bind (items_moves inner _ _) fun args => ?_) ?_
    · exact .pure (some (Expr.method receiver name args))
    · exact .pure (some (Expr.property receiver name))
  · refine .bind inner fun key => .bind (.expect _ _) fun _ => ?_
    exact .pure (some (Expr.keyed receiver key))
  · refine .bind (items_moves inner _ _) fun args => ?_
    exact .pure (some (Expr.apply receiver args))

theorem pipeArguments_moves :
    Moves distance slots (raiseAll slots) (pipeArguments nested) (pipeArguments nested) := by
  refine .extend (fun args => .ifEat (.bind (member_moves inner) fun arg => ?_) (.pure none)) []
  have snoc : raiseAll slots args ++ [arg.raise slots] = raiseAll slots (args ++ [arg]) := by
    simp only [Expr.raiseAll_eq, List.map_append, List.map_singleton]
  rw [snoc]
  exact .pure (some (args ++ [arg]))

theorem pipeline_moves : Moves distance slots (raise slots) (pipeline nested) (pipeline nested) := by
  refine .bind (member_moves inner) fun exp => .extend (fun exp => ?_) exp
  refine .ifEat (.bind (.ident _) fun name => ?_) (.pure none)
  refine .bind (pipeArguments_moves inner) fun args => .bind .slot fun slot => ?_
  exact .pure (some (Expr.pipe exp name args slot))

omit inner in
theorem raise_signs (signs : List UnaryOp) (e : Expr) :
    (signs.foldr Expr.unary e).raise slots = signs.foldr Expr.unary (e.raise slots) := by
  induction signs with
  | nil => rfl
  | cons sign signs ih => rw [List.foldr_cons, raise, ih, List.foldr_cons]

theorem signed_moves : Moves distance slots (raise slots) (signed nested) (signed nested) := by
  have step (signs : List UnaryOp) :
      Moves distance slots (Option.map id) (signStep signs) (signStep signs) := by
    refine .bind (.operator? signOf) fun sign => ?_
    cases sign with
    | none => exact .pure none
    | some op => exact .pure (some (signs ++ [op]))
  have signs := Moves.extend step []
  refine .bind signs fun signs => .bind (pipeline_moves inner) fun e => ?_
  rw [id, ← raise_signs]
  exact .pure (signs.foldr Expr.unary e)

omit inner in
theorem level_moves (operators : Symbol → Option BinaryOp) {operand : Parse Expr}
    (operands : Moves distance slots (raise slots) operand operand) :
    Moves distance slots (raise slots) (level operators operand) (level operators operand) := by
  refine .bind operands fun left => .extend (fun left => ?_) left
  refine .bind (.operator? operators) fun op => ?_
  cases op with
  | none => exact .pure none
  | some op => exact .bind operands fun right => .pure (some (Expr.binary op left right))

theorem conditional_moves :
    Moves distance slots (raise slots) (conditional nested) (conditional nested) := by
  have additive := level_moves additiveOf (level_moves multiplicativeOf (signed_moves inner))
  have equality := level_moves equalityOf (level_moves relationalOf additive)
  refine .bind (level_moves disjunctionOf (level_moves conjunctionOf equality)) fun condition => ?_
  refine .ifEat (.bind inner fun yes => ?_) (.pure condition)
  refine .bind (.expect _ _) fun _ => .bind inner fun no => ?_
  exact .pure (Expr.conditional condition yes no)

omit inner in
theorem expression_moves : Moves distance slots (raise slots) expression expression := by
  have within (depth : Nat) :
      Moves distance slots (raise slots) (expressionWithin depth) (expressionWithin depth) := by
    induction depth with
    | zero => exact .unexpected .expression
    | succ depth ih => exact conditional_moves ih
  intro cursor
  have same : (cursor.moved distance slots).rest.length = cursor.rest.length := List.length_map _
  rw [expression, same]
  exact within (cursor.rest.length + 1) cursor

omit inner in
theorem whole_moves : Moves distance slots (raise slots) whole whole := by
  refine .bind expression_moves fun e => ?_
  rintro ⟨rest, _⟩
  cases rest <;> rfl

end Grammar

/-- A text means the same wherever it stands, but for the slots of its pipes, and what is wrong with it is
wrong in the same place of it. -/
theorem parseSegment_moved (offset : Nat) (text : List Char) (slots : Nat) :
    parseSegment offset text slots =
      ((parseSegment 0 text 0).map fun found => (found.1.raise slots, slots + found.2)).mapError
        (Fault.moved offset) := by
  have cut := tokenizeFrom_moved offset 0 text
  rw [Nat.add_zero] at cut
  cases ran : tokenizeFrom 0 text with
  | error fault =>
    rw [ran] at cut
    have refused : tokenizeFrom offset text = .error (fault.moved offset) := cut
    simp only [parseSegment, ran, refused]
    rfl
  | ok tokens =>
    rw [ran] at cut
    have taken : tokenizeFrom offset text = .ok (tokens.map (Spanned.moved offset)) := cut
    simp only [parseSegment, ran, taken, Bind.bind, Except.bind]
    cases tokens with
    | nil => rfl
    | cons token tokens =>
      have read : Grammar.whole (Cursor.moved offset slots { rest := token :: tokens, slots := 0 }) = _ :=
        Grammar.whole_moves { rest := token :: tokens, slots := 0 }
      simp only [Cursor.moved, List.map_cons, Nat.add_zero] at read
      simp only [List.map_cons, List.isEmpty_cons, Bool.false_eq_true, if_false, StateT.run, read]
      cases Grammar.whole { rest := token :: tokens, slots := 0 } <;> rfl

end ChangeWatch
