import ChangeWatch.Proofs.Grammar.Consumption

/-!
What parsers give where it is known which tokens are left, whatever their places in the text. A repeated
step is followed from the front: what has been found so far, and what the steps make of the tokens that
are left then.
-/
namespace ChangeWatch.Parse

/-- Tokens that are left, and the next slot. -/
abbrev Point := List Token × Nat

def At (point : Point) (cursor : Cursor) : Prop :=
  cursor.tokens = point.1 ∧ cursor.slots = point.2

/-- A parser that leads from one point to another and gives a value on the way. -/
def Gives (p : Parse α) (start : Point) (value : α) (stop : Point) : Prop :=
  ∀ cursor, At start cursor → ∃ after, p cursor = .ok (value, after) ∧ At stop after

namespace Gives

variable {p : Parse α} {next : α → Parse β} {start middle stop : Point} {value : α} {found : β}
  {tokens : List Token} {slots : Nat} {symbol : Symbol}

theorem pure (value : α) (point : Point) : Gives (pure value) point value point :=
  fun cursor here => ⟨cursor, rfl, here⟩

theorem bind (first : Gives p start value middle) (rest : Gives (next value) middle found stop) :
    Gives (p >>= next) start found stop := by
  intro cursor here
  obtain ⟨between, ran, there⟩ := first cursor here
  obtain ⟨after, ran', end_⟩ := rest between there
  exact ⟨after, bind_ok.mpr ⟨value, between, ran, ran'⟩, end_⟩

theorem eat_here : Gives (eat symbol) (.symbol symbol :: tokens, slots) true (tokens, slots) := by
  rintro ⟨rest, last⟩ ⟨same, rfl⟩
  cases rest with
  | nil => cases same
  | cons token rest =>
    obtain ⟨here, rfl⟩ := List.cons.inj same
    exact ⟨{ rest, slots := last }, if_pos here, rfl, rfl⟩

theorem eat_other (other : start.1.head? ≠ some (.symbol symbol)) :
    Gives (eat symbol) start false start := by
  rintro ⟨rest, _⟩ ⟨same, slots⟩
  refine ⟨_, ?_, same, slots⟩
  cases rest with
  | nil => rfl
  | cons token rest =>
    have different : token.token ≠ .symbol symbol := fun here => other (by rw [← same, ← here]; rfl)
    exact if_neg different

theorem ifEat_here {yes no : Parse β} (taken : Gives yes (tokens, slots) found stop) :
    Gives (do if ← eat symbol then yes else no) (.symbol symbol :: tokens, slots) found stop :=
  .bind eat_here taken

theorem ifEat_other {yes no : Parse β} (other : start.1.head? ≠ some (.symbol symbol))
    (left : Gives no start found stop) :
    Gives (do if ← eat symbol then yes else no) start found stop :=
  .bind (eat_other other) left

theorem expect (expected : Expected) :
    Gives (expect symbol expected) (.symbol symbol :: tokens, slots) () (tokens, slots) :=
  ifEat_here (pure () _)

theorem ident (name : String) (expected : Expected) :
    Gives (ident expected) (.ident name :: tokens, slots) name (tokens, slots) := by
  rintro ⟨rest, _⟩ ⟨same, rfl⟩
  cases rest with
  | nil => cases same
  | cons token rest =>
    obtain ⟨token, _, _⟩ := token
    obtain ⟨rfl, rfl⟩ := List.cons.inj same
    exact ⟨_, rfl, rfl, rfl⟩

theorem operator?_here {operators : Symbol → Option α} (known : operators symbol = some value) :
    Gives (operator? operators) (.symbol symbol :: tokens, slots) (some value) (tokens, slots) := by
  rintro ⟨rest, last⟩ ⟨same, rfl⟩
  cases rest with
  | nil => cases same
  | cons token rest =>
    obtain ⟨token, _, _⟩ := token
    obtain ⟨rfl, rfl⟩ := List.cons.inj same
    exact ⟨{ rest, slots := last }, by simp only [operator?, known], rfl, rfl⟩

theorem operator?_other {operators : Symbol → Option α}
    (others : ∀ sign, start.1.head? = some (.symbol sign) → operators sign = none) :
    Gives (operator? operators) start none start := by
  rintro cursor ⟨same, slot⟩
  refine ⟨cursor, ?_, same, slot⟩
  unfold operator?
  split
  · rename_i sign _ _ _ here
    rw [others sign (by rw [← same, Cursor.tokens, here]; rfl)]
  · rfl

theorem slot : Gives slot (tokens, slots) slots (tokens, slots + 1) := by
  rintro cursor ⟨same, rfl⟩
  exact ⟨_, rfl, same, rfl⟩

end Gives

/-- From a value at a point, a repeated step leads to another one, however often it may still be repeated
beyond the tokens that are left. -/
def Extends (step : α → Parse (Option α)) (value : α) (start : Point) (found : α) (stop : Point) : Prop :=
  ∀ steps, start.1.length ≤ steps → Gives (iterate step steps value) start found stop

/-- A parser that comes to a value at a point and goes on from there with a repeated step. -/
def Continues (p : Parse α) (start : Point) (step : α → Parse (Option α)) (value : α) (middle : Point) :
    Prop :=
  ∀ found stop, Extends step value middle found stop → Gives p start found stop

variable {p : Parse α} {step : α → Parse (Option α)} {start middle stop : Point} {value found : α}

theorem Extends.gives (goes : Extends step value start found stop) :
    Gives (extend step value) start found stop := by
  intro cursor here
  have enough : start.1.length ≤ cursor.rest.length := here.1 ▸ cursor.length_tokens_le
  exact goes _ enough cursor here

namespace Continues

theorem extend (step : α → Parse (Option α)) (value : α) (start : Point) :
    Continues (extend step value) start step value start :=
  fun _ _ goes => goes.gives

theorem first {first : Parse β} {found : β} {begin : β → α} (gives : Gives first start found middle) :
    Continues (first >>= fun found => Parse.extend step (begin found)) start step (begin found)
      middle :=
  fun _ _ goes => gives.bind goes.gives

/-- One more step, which takes a token at least. -/
theorem more (continues : Continues p start step value middle)
    (adds : Gives (step value) middle (some found) stop) (less : stop.1.length < middle.1.length) :
    Continues p start step found stop := by
  refine fun last final goes => continues last final fun steps enough => ?_
  cases steps with
  | zero => omega
  | succ steps => exact adds.bind (goes steps (by omega))

/-- No more steps. -/
theorem done (continues : Continues p start step value stop)
    (ends : Gives (step value) stop none stop) : Gives p start value stop := by
  refine continues value stop fun steps enough => ?_
  cases steps with
  | zero => exact .pure value stop
  | succ steps => exact ends.bind (.pure value stop)

end Continues
end ChangeWatch.Parse
