import ChangeWatch.Expr.Printer
import ChangeWatch.Proofs.Unparsing.Scanning

/-!
The expressions whose canonical text is read back as the same expression. What they leave out has no
text of its own: the context where it is no receiver, numbers with a sign, words with a meaning as names,
a property that is called, texts between expressions.
-/
namespace ChangeWatch

/-- Names that are not words with a meaning of their own. -/
def IsIdentifier (name : String) : Prop :=
  isName name = true ∧ ∀ keyword : Keyword, name ≠ keyword.spelling

/-- Texts of ASCII that quotes keep. -/
def IsPlainText (s : String) : Prop := ∀ c ∈ s.toList, Lexer.IsPlain c

instance (name : String) : Decidable (IsIdentifier name) :=
  decidable_of_iff
    (isName name = true ∧ ∀ keyword ∈ [Keyword.true, .false, .null, .undefined], name ≠ keyword.spelling)
    ⟨fun ⟨shape, other⟩ => ⟨shape, fun keyword => other keyword (by cases keyword <;> simp)⟩,
      fun ⟨shape, other⟩ => ⟨shape, fun keyword _ => other keyword⟩⟩

instance (s : String) : Decidable (IsPlainText s) := List.decidableBAll Lexer.IsPlain s.toList

/-- Keys of map literals, with and without quotes. -/
def IsKey (key : String) : Prop := IsIdentifier key ∨ isName key = false ∧ IsPlainText key

/-- Texts that quotes keep. -/
def IsKeptText (s : String) : Prop := ∀ c ∈ s.toList, Lexer.IsKept c

instance (s : String) : Decidable (IsKeptText s) := List.decidableBAll Lexer.IsKept s.toList

/-- Keys that are read back: names without a meaning of their own, and texts that need quotes and that quotes
keep. -/
def IsReadableKey (key : String) : Prop := IsIdentifier key ∨ isName key = false ∧ IsKeptText key

instance (key : String) : Decidable (IsReadableKey key) :=
  inferInstanceAs (Decidable (IsIdentifier key ∨ isName key = false ∧ IsKeptText key))

theorem IsPlainText.kept {s : String} (plain : IsPlainText s) : IsKeptText s :=
  fun c member => (plain c member).kept

theorem IsKey.readable {key : String} (known : IsKey key) : IsReadableKey key :=
  known.imp_right fun ⟨shape, plain⟩ => ⟨shape, plain.kept⟩

/-- Constants that are written as one token. -/
def Value.Canonical : Value → Prop
  | null | bool _ => True
  | int n => 0 ≤ n.toInt
  | str s => IsPlainText s
  | _ => False

namespace Expr

theorem eq_implicit {e : Expr} (known : e.isImplicit = true) : e = implicit := by
  cases e <;> first | rfl | cases known

def isProperty : Expr → Bool
  | property _ _ => true
  | _ => false

mutual
def Canonical : Expr → Prop
  | implicit => False
  | literal value => value.Canonical
  | property receiver name => (receiver.isImplicit = true ∨ receiver.Canonical) ∧ IsIdentifier name
  | keyed receiver key => receiver.Canonical ∧ key.Canonical
  | method receiver name args =>
    (receiver.isImplicit = true ∨ receiver.Canonical) ∧ IsIdentifier name ∧ CanonicalAll args
  | apply target args => target.Canonical ∧ target.isProperty = false ∧ CanonicalAll args
  | unary _ operand => operand.Canonical
  | binary _ left right => left.Canonical ∧ right.Canonical
  | conditional condition yes no => condition.Canonical ∧ yes.Canonical ∧ no.Canonical
  | array items => CanonicalAll items
  | map entries => CanonicalEntries entries
  | pipe exp name args _ => exp.Canonical ∧ IsIdentifier name ∧ CanonicalAll args
  | interpolation _ _ => False

def CanonicalAll : List Expr → Prop
  | [] => True
  | e :: es => e.Canonical ∧ CanonicalAll es

def CanonicalEntries : List (String × Expr) → Prop
  | [] => True
  | (key, e) :: entries => (IsKey key ∧ e.Canonical) ∧ CanonicalEntries entries
end

mutual
/-- The slots of the pipes, in the order in which the pipes are complete: what a pipe works on, its
arguments, and then the pipe. -/
def pipeSlots : Expr → List Nat
  | implicit | literal _ => []
  | property receiver _ => receiver.pipeSlots
  | keyed receiver key => receiver.pipeSlots ++ key.pipeSlots
  | method receiver _ args => receiver.pipeSlots ++ pipeSlotsAll args
  | apply target args => target.pipeSlots ++ pipeSlotsAll args
  | unary _ operand => operand.pipeSlots
  | binary _ left right => left.pipeSlots ++ right.pipeSlots
  | conditional condition yes no => condition.pipeSlots ++ yes.pipeSlots ++ no.pipeSlots
  | array items => pipeSlotsAll items
  | map entries => pipeSlotsEntries entries
  | pipe exp _ args slot => exp.pipeSlots ++ pipeSlotsAll args ++ [slot]
  | interpolation _ expressions => pipeSlotsAll expressions

def pipeSlotsAll : List Expr → List Nat
  | [] => []
  | e :: es => e.pipeSlots ++ pipeSlotsAll es

def pipeSlotsEntries : List (String × Expr) → List Nat
  | [] => []
  | (_, e) :: entries => e.pipeSlots ++ pipeSlotsEntries entries
end

theorem pipeSlotsAll_eq (es : List Expr) : pipeSlotsAll es = es.flatMap pipeSlots := by
  induction es with
  | nil => rfl
  | cons e es ih => rw [pipeSlotsAll, ih, List.flatMap_cons]

theorem pipeSlotsEntries_eq (entries : List (String × Expr)) :
    pipeSlotsEntries entries = entries.flatMap fun entry => entry.2.pipeSlots := by
  induction entries with
  | nil => rfl
  | cons entry entries ih => rw [pipeSlotsEntries, ih, List.flatMap_cons]

end Expr

/-- Slots that are taken one after the other, from one number on. -/
def InOrder (start : Nat) (slots : List Nat) : Prop := slots = List.range' start slots.length

namespace InOrder

variable {start : Nat} {first last : List Nat}

theorem append : InOrder start (first ++ last) ↔
    InOrder start first ∧ InOrder (start + first.length) last := by
  unfold InOrder
  rw [List.length_append, ← List.range'_append_1]
  constructor
  · intro same
    exact List.append_inj same (by simp)
  · rintro ⟨same, same'⟩
    rw [← same, ← same']

theorem single {slot : Nat} : InOrder start [slot] ↔ slot = start := by
  simp [InOrder]

end InOrder
end ChangeWatch
