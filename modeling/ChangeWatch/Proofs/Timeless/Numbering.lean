import ChangeWatch.Expr.Cache
import ChangeWatch.Proofs.Grammar.Sentences
import ChangeWatch.Proofs.Timeless.Evaluation

/-!
Parsed expressions have owners for their pipe slots: a pipe takes the next number when it has been
read, so no two pipes share a slot, and one assignment of paths to slots suits the whole expression.
-/
namespace ChangeWatch

/-- Something that certain assignments of paths to slots have, which depends only on the slots from
one number up to another. -/
def Assigned (start stop : Nat) (suits : (Nat → List Nat) → Prop) : Prop :=
  start ≤ stop ∧ ∃ owner : Nat → List Nat, ∀ other : Nat → List Nat,
    (∀ slot, start ≤ slot → slot < stop → other slot = owner slot) → suits other

namespace Assigned

variable {start middle stop : Nat} {suits others : (Nat → List Nat) → Prop}

theorem always (holds : ∀ owner, suits owner) : Assigned start start suits := by
  refine ⟨Nat.le_refl start, fun _ => [], ?_⟩
  intro other _
  exact holds other

theorem single (slot : Nat) (path : List Nat) :
    Assigned slot (slot + 1) fun owner => owner slot = path := by
  refine ⟨by omega, fun _ => path, ?_⟩
  intro other same
  exact same slot (by omega) (by omega)

/-- Assignments on ranges that follow each other are put together. -/
theorem and (first : Assigned start middle suits) (second : Assigned middle stop others) :
    Assigned start stop fun owner => suits owner ∧ others owner := by
  obtain ⟨before, owner, known⟩ := first
  obtain ⟨after, later, knownLater⟩ := second
  let both (slot : Nat) : List Nat := if slot < middle then owner slot else later slot
  refine ⟨by omega, both, ?_⟩
  intro other same
  constructor
  · apply known
    intro slot above below
    have here := same slot above (by omega)
    simpa only [both, below, if_true] using here
  · apply knownLater
    intro slot above below
    have past : ¬ slot < middle := by omega
    have here := same slot (by omega) below
    simpa only [both, past, if_false] using here

theorem mono (assigned : Assigned start stop suits) (implied : ∀ owner, suits owner → others owner) :
    Assigned start stop others := by
  obtain ⟨order, owner, known⟩ := assigned
  refine ⟨order, owner, ?_⟩
  intro other same
  exact implied other (known other same)

end Assigned

namespace Expr

/-- An expression whose pipes have the slots from one number up to another. -/
def Numbered (start stop : Nat) (e : Expr) : Prop :=
  ∀ path, Assigned start stop fun owner => e.Placed owner path

def NumberedAll (start stop : Nat) (es : List Expr) : Prop :=
  ∀ path index, Assigned start stop fun owner => PlacedAll owner path index es

def NumberedEntries (start stop : Nat) (entries : List (String × Expr)) : Prop :=
  ∀ path index, Assigned start stop fun owner =>
    PlacedEntries owner path index entries

theorem placedAll_snoc {owner : Nat → List Nat} {path : List Nat} {es : List Expr} {e : Expr} :
    (index : Nat) → PlacedAll owner path index es →
      e.Placed owner ((index + es.length) :: path) → PlacedAll owner path index (es ++ [e]) := by
  induction es with
  | nil => exact fun _ _ placed => ⟨placed, trivial⟩
  | cons first es ih =>
    intro index placed last
    have behind : e.Placed owner ((index + 1 + es.length) :: path) := by
      rwa [Nat.add_assoc, Nat.add_comm 1]
    exact ⟨placed.1, ih (index + 1) placed.2 behind⟩

theorem placedEntries_snoc {owner : Nat → List Nat} {path : List Nat}
    {entries : List (String × Expr)} {key : String} {e : Expr} :
    (index : Nat) → PlacedEntries owner path index entries →
      e.Placed owner ((index + entries.length) :: path) →
      PlacedEntries owner path index (entries ++ [(key, e)]) := by
  induction entries with
  | nil => exact fun _ _ placed => ⟨placed, trivial⟩
  | cons first entries ih =>
    intro index placed last
    have behind : e.Placed owner ((index + 1 + entries.length) :: path) := by
      rwa [Nat.add_assoc, Nat.add_comm 1]
    exact ⟨placed.1, ih (index + 1) placed.2 behind⟩

end Expr

namespace Expr

variable {start middle stop : Nat} {e : Expr} {es : List Expr}

theorem numbered_literal {value : Value} (scalar : value.IsScalar) :
    (literal value).Numbered start start :=
  fun _ => .always fun _ => scalar

theorem numberedAll_nil (start : Nat) : NumberedAll start start [] :=
  fun _ _ => .always fun _ => trivial

theorem numberedEntries_nil (start : Nat) : NumberedEntries start start [] :=
  fun _ _ => .always fun _ => trivial

theorem numberedAll_snoc (all : NumberedAll start middle es) (last : e.Numbered middle stop) :
    NumberedAll start stop (es ++ [e]) := by
  intro path index
  have both := (all path index).and (last ((index + es.length) :: path))
  refine both.mono fun owner placed => ?_
  exact placedAll_snoc index placed.1 placed.2

theorem numberedEntries_snoc {entries : List (String × Expr)} {key : String}
    (all : NumberedEntries start middle entries) (last : e.Numbered middle stop) :
    NumberedEntries start stop (entries ++ [(key, e)]) := by
  intro path index
  have both := (all path index).and (last ((index + entries.length) :: path))
  refine both.mono fun owner placed => ?_
  exact placedEntries_snoc index placed.1 placed.2

end Expr

namespace Grammar

open ChangeWatch.Expr (Numbered NumberedAll NumberedEntries)

def Item.Numbered (start stop : Nat) : Item α → List α → Prop
  | .expression, es => NumberedAll start stop es
  | .entry, entries => NumberedEntries start stop entries

/-- The pipes in what a phrase means have the slots from one number up to another. -/
def Category.Numbered (start stop : Nat) : Category α → α → Prop
  | .arguments, es => NumberedAll start stop es
  | .entry, (_, e) => e.Numbered start stop
  | .items item, values | .enclosed item _, values => item.Numbered start stop values
  | .conditional, e | .binary _, e | .unary, e | .pipeline, e | .member, e | .primary, e =>
    e.Numbered start stop

theorem Item.numbered_nil (item : Item α) (start : Nat) : item.Numbered start start [] := by
  cases item with
  | expression => exact Expr.numberedAll_nil start
  | entry => exact Expr.numberedEntries_nil start

theorem Item.numbered_snoc {item : Item α} {start middle stop : Nat} {values : List α} {value : α}
    (all : item.Numbered start middle values) (last : item.category.Numbered middle stop value) :
    item.Numbered start stop (values ++ [value]) := by
  cases item with
  | expression => exact Expr.numberedAll_snoc all last
  | entry => exact Expr.numberedEntries_snoc all last

variable {Middle : Ending → Prop} {category : Category α} {tokens : List Token} {start stop : Nat}
  {value : α} {ending : Ending}

/-- Phrases take their slots one after the other, each part from where the part before has ended. -/
theorem Phrase.numbered (phrase : Phrase Middle category tokens start value ending stop) :
    category.Numbered start stop value := by
  induction phrase with
  | literal constant =>
    refine Expr.numbered_literal ?_
    unfold Token.literal? at constant
    split at constant <;> cases constant <;> trivial
  | name => exact fun _ => .always fun _ => trivial
  | call _ _ ih => exact fun path => (ih path 1).mono fun _ placed => ⟨trivial, placed⟩
  | array _ ih | map _ ih => exact fun path => ih path 0
  | one _ ih => exact Item.numbered_snoc (Item.numbered_nil _ _) ih
  | more _ _ ih ihLast => exact Item.numbered_snoc ih ihLast
  | empty item => exact item.numbered_nil _
  | noArgument => exact Expr.numberedAll_nil _
  | argument _ _ ih ihLast => exact Expr.numberedAll_snoc ih ihLast
  | property _ _ ih | signed _ _ ih => exact fun path => ih (0 :: path)
  | method _ _ _ ih ihArgs | apply _ _ _ ih ihArgs =>
    exact fun path => (ih (0 :: path)).and (ihArgs path 1)
  | keyed _ _ ih ihKey => exact fun path => (ih (0 :: path)).and (ihKey (1 :: path))
  | pipe _ _ _ ih ihArgs =>
    exact fun path => (ih (0 :: path)).and ((ihArgs path 1).and (.single _ path))
  | single level _ ih => cases level <;> exact ih
  | @binary _ _ _ _ _ _ _ _ _ level _ _ _ _ _ _ ih ihRight =>
    cases level <;> exact fun path => (ih (0 :: path)).and (ihRight (1 :: path))
  | choice _ _ _ _ ih ihYes ihNo =>
    exact fun path => (ih (0 :: path)).and ((ihYes (1 :: path)).and (ihNo (2 :: path)))
  | group _ ih | entry _ _ ih | filled _ _ ih | operand _ ih | unpiped _ ih | unsigned _ ih
    | plain _ ih => exact ih

end Grammar

theorem parseSegment_numbered {offset slots stop : Nat} {text : List Char} {e : Expr}
    (parsed : parseSegment offset text slots = .ok (e, stop)) : e.Numbered slots stop := by
  obtain ⟨tokens, -, ending, phrase⟩ := Grammar.parseSegment_ok_iff.mp parsed
  exact phrase.numbered

theorem Interpolation.Segments.numbered {start stop : Nat} {es : List Expr}
    (segments : Segments start es stop) : Expr.NumberedAll start stop es := by
  induction segments with
  | nil slots => exact Expr.numberedAll_nil slots
  | cons first _ ih =>
    exact fun path index => (parseSegment_numbered first (index :: path)).and (ih path (index + 1))

theorem parse_numbered {reading : Reading} {text location : String} {source : Source}
    (parsed : parse reading text location = .ok source) : source.expr.Numbered 0 source.slots := by
  cases reading with
  | binding => exact parseSegment_numbered (parse_binding_ok_iff.mp parsed).1
  | interpolation =>
    obtain ⟨strings, es, same, segments⟩ := parse_interpolation_segments parsed
    rw [same]
    exact fun path => segments.numbered path 0

/-- A parsed expression has owners for its slots. -/
theorem parse_placed {reading : Reading} {text location : String} {source : Source}
    (parsed : parse reading text location = .ok source) :
    ∃ owner, source.expr.Placed owner [] := by
  obtain ⟨-, owner, known⟩ := parse_numbered parsed []
  exact ⟨owner, known owner fun _ _ _ => rfl⟩

end ChangeWatch
