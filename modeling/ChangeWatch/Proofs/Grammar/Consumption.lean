import ChangeWatch.Expr.Parser

/-!
What parsers take. A parser that gives a value has taken some of the tokens in front of it, from the first
one on, and left the others as they are.
-/
namespace ChangeWatch

/-- The tokens that are left. -/
def Cursor.tokens (cursor : Cursor) : List Token := cursor.rest.map Spanned.token

theorem Cursor.length_tokens_le (cursor : Cursor) : cursor.tokens.length ≤ cursor.rest.length :=
  Nat.le_of_eq (List.length_map Spanned.token)

namespace Parse

theorem bind_ok {p : Parse α} {next : α → Parse β} {cursor after : Cursor} {found : β} :
    (p >>= next) cursor = .ok (found, after) ↔
      ∃ value middle, p cursor = .ok (value, middle) ∧ next value middle = .ok (found, after) := by
  simp only [Bind.bind, StateT.bind, Except.bind]
  constructor
  · intro ran
    cases first : p cursor with
    | error fault =>
      rw [first] at ran
      cases ran
    | ok both =>
      rw [first] at ran
      exact ⟨both.1, both.2, rfl, ran⟩
  · rintro ⟨value, middle, first, ran⟩
    rw [first]
    exact ran

theorem unexpected_ne_ok {expected : Expected} {cursor : Cursor} {ended : α × Cursor} :
    unexpected expected cursor ≠ .ok ended := by
  unfold Parse.unexpected
  split <;> nofun

/-- If a parser gives something at a cursor, then the tokens it takes, what it gives and the cursor behind
those tokens are in a relation. -/
def Consumes (cursor : Cursor) (R : List Token → α → Cursor → Prop) (p : Parse α) : Prop :=
  ∀ value after, p cursor = .ok (value, after) →
    ∃ used, cursor.tokens = used ++ after.tokens ∧ R used value after

namespace Consumes

variable {cursor : Cursor} {R : List Token → α → Cursor → Prop} {S : List Token → β → Cursor → Prop}
  {p : Parse α} {next : α → Parse β}

theorem mono {T : List Token → α → Cursor → Prop} (consumes : Consumes cursor R p)
    (implied : ∀ used value after, cursor.tokens = used ++ after.tokens → R used value after →
      T used value after) : Consumes cursor T p := by
  intro value after ran
  obtain ⟨used, split, related⟩ := consumes value after ran
  exact ⟨used, split, implied used value after split related⟩

theorem and {T : List Token → α → Cursor → Prop} (first : Consumes cursor R p)
    (second : Consumes cursor T p) :
    Consumes cursor (fun used value after => R used value after ∧ T used value after) p := by
  intro value after ran
  obtain ⟨used, split, related⟩ := first value after ran
  obtain ⟨same, split', related'⟩ := second value after ran
  obtain rfl := List.append_cancel_right (split.symm.trans split')
  exact ⟨used, split, related, related'⟩

theorem pure {value : α} (holds : R [] value cursor) : Consumes cursor R (pure value) := by
  rintro found after ran
  cases ran
  exact ⟨[], rfl, holds⟩

theorem bind_split (first : Consumes cursor R p)
    (rest : ∀ used value middle, cursor.tokens = used ++ middle.tokens → R used value middle →
      Consumes middle (fun more found after => S (used ++ more) found after) (next value)) :
    Consumes cursor S (p >>= next) := by
  intro found after ran
  obtain ⟨value, middle, parsed, ran⟩ := bind_ok.mp ran
  obtain ⟨used, split, related⟩ := first value middle parsed
  obtain ⟨more, split', related'⟩ := rest used value middle split related found after ran
  exact ⟨used ++ more, by rw [split, split', List.append_assoc], related'⟩

theorem bind (first : Consumes cursor R p)
    (rest : ∀ used value middle, R used value middle →
      Consumes middle (fun more found after => S (used ++ more) found after) (next value)) :
    Consumes cursor S (p >>= next) :=
  first.bind_split fun used value middle _ => rest used value middle

theorem unexpected (expected : Expected) : Consumes cursor R (unexpected expected) :=
  fun _ _ ran => absurd ran unexpected_ne_ok

/-- A choice by whether the first token is a symbol, which is taken then. -/
theorem ifEat {symbol : Symbol} {yes no : Parse β}
    (taken : ∀ middle, middle.slots = cursor.slots →
      cursor.tokens = .symbol symbol :: middle.tokens →
      Consumes middle (fun more found after => S (.symbol symbol :: more) found after) yes)
    (left : cursor.tokens.head? ≠ some (.symbol symbol) → Consumes cursor S no) :
    Consumes cursor S (do if ← eat symbol then yes else no) := by
  intro found after ran
  obtain ⟨rest, slots⟩ := cursor
  cases rest with
  | nil => exact left nofun found after ran
  | cons token rest =>
    simp only [Bind.bind, StateT.bind, Except.bind, Parse.eat] at ran
    split at ran
    · rename_i stopped
      split at stopped <;> cases stopped
    · rename_i same
      split at same
      · rename_i here
        cases same
        have split : Cursor.tokens { rest := token :: rest, slots } =
            .symbol symbol :: rest.map Spanned.token := congrArg (· :: rest.map Spanned.token) here
        obtain ⟨more, split', related⟩ := taken { rest, slots } rfl split found after ran
        exact ⟨.symbol symbol :: more, split.trans (congrArg (.symbol symbol :: ·) split'), related⟩
      · rename_i other
        cases same
        exact left (fun same => other (Option.some.inj same)) found after ran

theorem expect (symbol : Symbol) (expected : Expected) :
    Consumes cursor (fun used _ after => after.slots = cursor.slots ∧ used = [.symbol symbol])
      (expect symbol expected) :=
  .ifEat (fun _ slots _ => .pure ⟨slots, rfl⟩) fun _ => unexpected expected

theorem ident (expected : Expected) :
    Consumes cursor (fun used name after => after.slots = cursor.slots ∧ used = [.ident name])
      (ident expected) := by
  intro name after ran
  unfold Parse.ident at ran
  split at ran
  · rename_i same
    cases ran
    exact ⟨[.ident name], by simp [Cursor.tokens, same], rfl, rfl⟩
  · exact absurd ran unexpected_ne_ok

theorem operator? (operators : Symbol → Option α) :
    Consumes cursor (fun used op after => after.slots = cursor.slots ∧ match op with
      | some op => ∃ sign, operators sign = some op ∧ used = [.symbol sign]
      | none => used = [] ∧ after = cursor) (operator? operators) := by
  intro op after ran
  unfold Parse.operator? at ran
  split at ran
  · rename_i sign _ _ _ same
    split at ran
    · rename_i known
      cases ran
      exact ⟨[.symbol sign], by simp [Cursor.tokens, same], rfl, sign, known, rfl⟩
    · cases ran
      exact ⟨[], rfl, rfl, rfl, rfl⟩
  · cases ran
    exact ⟨[], rfl, rfl, rfl, rfl⟩

theorem slot : Consumes cursor (fun used number after => used = [] ∧ number = cursor.slots ∧
    after.tokens = cursor.tokens ∧ after.slots = cursor.slots + 1) slot := by
  intro number after ran
  cases ran
  exact ⟨[], rfl, rfl, rfl, rfl, rfl⟩

/-- A step that keeps a relation is repeated. What has been taken before counts with what the steps
take. -/
theorem extend {step : α → Parse (Option α)} {start : Cursor} {before : List Token} {value : α}
    (holds : R before value start)
    (keeps : ∀ used value cursor, R used value cursor →
      Consumes cursor (fun more added after => R (used ++ more) (added.getD value) after)
        (step value)) :
    Consumes start (fun used value after => R (before ++ used) value after)
      (extend step value) := by
  have repeated (steps : Nat) : ∀ used value cursor, R used value cursor →
      Consumes cursor (fun more value after => R (used ++ more) value after)
        (iterate step steps value) := by
    induction steps with
    | zero => exact fun used value cursor holds => .pure (by rwa [List.append_nil])
    | succ steps ih =>
      intro used value cursor holds
      refine .bind (keeps used value cursor holds) fun more added middle kept => ?_
      cases added with
      | none => exact .pure (by rwa [List.append_nil])
      | some found =>
        refine (ih (used ++ more) found middle kept).mono fun _ _ _ _ kept => ?_
        rwa [List.append_assoc] at kept
  exact fun found after => repeated start.rest.length before value start holds found after

/-- A repeated step goes on until it has nothing to add, or no token is left. -/
theorem extend_last {step : α → Parse (Option α)} {Last : Cursor → Prop} {value : α}
    (ends : ∀ value cursor, Consumes cursor (fun more added after =>
      match added with
      | some _ => more ≠ []
      | none => Last after) (step value))
    (exhausted : ∀ cursor, cursor.tokens = [] → Last cursor) :
    Consumes cursor (fun _ _ after => Last after) (Parse.extend step value) := by
  have repeated (steps : Nat) : ∀ value cursor, cursor.tokens.length ≤ steps →
      Consumes cursor (fun _ _ after => Last after) (iterate step steps value) := by
    induction steps with
    | zero =>
      intro value cursor few
      exact .pure (exhausted cursor (List.length_eq_zero_iff.mp (Nat.le_zero.mp few)))
    | succ steps ih =>
      intro value cursor few
      refine (ends value cursor).bind_split fun more added middle split adds => ?_
      cases added with
      | none => exact .pure adds
      | some value =>
        have taken := List.length_pos_iff.mpr adds
        rw [split, List.length_append] at few
        exact ih value middle (by omega)
  exact fun found after => repeated cursor.rest.length value cursor cursor.length_tokens_le found after

end Consumes
end Parse
end ChangeWatch
