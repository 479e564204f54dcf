import ChangeWatch.Proofs.Grammar.Sentences
import ChangeWatch.Proofs.Numerals.Signs
import ChangeWatch.Proofs.Unparsing.Vocabularies

/-!
What parsed expressions are made of. The lexer gives numbers without a sign and names that are no words
with a meaning, and the parser numbers pipes in the order in which they are complete.
-/
namespace ChangeWatch

open Grammar (Category Ending Item Phrase)

/-- Tokens as the lexer gives them. -/
def Token.Lexed : Token → Prop
  | ident name => IsIdentifier name
  | int n => 0 ≤ n.toInt
  | float x => IsUnsigned x
  | keyword _ | str _ | symbol _ => True

/-- Constants that the lexer's tokens stand for. -/
def Value.Lexed : Value → Prop
  | null | bool _ | str _ => True
  | int n => 0 ≤ n.toInt
  | float x => IsUnsigned x
  | list _ _ | map _ _ | object _ | function _ => False

/-- The leaves of expressions that are made of the lexer's tokens. -/
def Vocabulary.lexed : Vocabulary where
  literal := Value.Lexed
  name := IsIdentifier
  key _ := True
  called _ := True

namespace Lexer

theorem word_lexed {name : String} (shape : isName name = true) : (word name).Lexed := by
  unfold word
  split
  · trivial
  split
  · trivial
  split
  · trivial
  split
  · trivial
  · refine ⟨shape, fun keyword => ?_⟩
    cases keyword <;> assumption

theorem integer_lexed {digits : List Char} {token : Token} (read : integer digits = token) :
    token.Lexed := by
  unfold integer at read
  cases fits : int64? (digitsValue digits) with
  | none =>
    rw [fits] at read
    exact read ▸ IsUnsigned.floatOfDecimal _ _
  | some n =>
    rw [fits] at read
    unfold int64? at fits
    split at fits
    · rename_i range
      cases fits
      rw [← read]
      show 0 ≤ (Int64.ofInt (digitsValue digits)).toInt
      rw [Int64.toInt_ofInt_of_le range.1 range.2]
      exact Int.natCast_nonneg _
    · cases fits

theorem number_lexed {whole s letters rest : List Char} {token : Token}
    (taken : number whole s = .token token letters rest) : token.Lexed := by
  unfold number at taken
  generalize fraction? s = fraction at taken
  cases fraction with
  | none =>
    simp only at taken
    generalize exponent? s = exponent at taken
    cases exponent with
    | none =>
      simp only [Option.isNone_none, Bool.and_self, ↓reduceIte, Cut.token.injEq] at taken
      exact integer_lexed taken.1
    | some _ =>
      simp only [Option.isNone_some, Bool.and_false, Bool.false_eq_true, ↓reduceIte, Cut.token.injEq]
        at taken
      rw [← taken.1]
      exact IsUnsigned.nearest rfl
  | some _ =>
    simp only [Option.isNone_some, Bool.false_and, Bool.false_eq_true, ↓reduceIte, Cut.token.injEq]
      at taken
    rw [← taken.1]
    exact IsUnsigned.nearest rfl

theorem sign_of_symbol {c : Char} {s letters rest : List Char} {token : Token}
    (taken : symbol c s = .token token letters rest) : ∃ sign, token = .symbol sign := by
  unfold symbol at taken
  split at taken <;> cases taken <;> exact ⟨_, rfl⟩

theorem cut_lexed {c : Char} {s letters rest : List Char} {token : Token}
    (taken : cut c s = .token token letters rest) : token.Lexed := by
  unfold cut at taken
  split at taken
  · rename_i starts
    cases taken
    refine word_lexed ?_
    simp only [isName, String.toList_ofList, starts, Bool.true_and]
    exact List.all_takeWhile
  split at taken
  · exact number_lexed taken
  split at taken
  · unfold literal at taken
    split at taken
    · cases taken
    · split at taken
      · cases taken
        trivial
      · cases taken
  split at taken
  · exact number_lexed taken
  · obtain ⟨sign, rfl⟩ := sign_of_symbol taken
    trivial

theorem cutAll_lexed {steps offset : Nat} {text : List Char} {tokens : List Spanned}
    (ran : cutAll steps offset text = .ok tokens) : ∀ token ∈ tokens.map Spanned.token, token.Lexed := by
  induction steps generalizing offset text tokens with
  | zero =>
    cases text <;> cases ran <;> exact List.forall_mem_nil _
  | succ steps ih =>
    cases text with
    | nil =>
      cases ran
      exact List.forall_mem_nil _
    | cons c s =>
      rw [cutAll] at ran
      split at ran
      · exact ih ran
      · split at ran
        · cases ran
        · rename_i token letters rest taken
          simp only at ran
          split at ran
          · rename_i others behind
            cases ran
            exact List.forall_mem_cons.mpr ⟨cut_lexed taken, ih behind⟩
          · cases ran

end Lexer

theorem tokenizeFrom_lexed {offset : Nat} {text : List Char} {tokens : List Spanned}
    (ran : tokenizeFrom offset text = .ok tokens) : ∀ token ∈ tokens.map Spanned.token, token.Lexed :=
  Lexer.cutAll_lexed ran

namespace Token

variable {token : Token}

theorem Lexed.literal {value : Value} (lexed : token.Lexed) (constant : token.literal? = some value) :
    value.Lexed := by
  unfold literal? at constant
  split at constant <;> cases constant <;> exact lexed

end Token

/-- Slots that are taken one after the other, from one number up to another. -/
def Spans (start : Nat) (slots : List Nat) (stop : Nat) : Prop :=
  InOrder start slots ∧ stop = start + slots.length

namespace Spans

variable {start middle stop : Nat} {first last : List Nat}

theorem nil (start : Nat) : Spans start [] start := ⟨rfl, rfl⟩

theorem single (slot : Nat) : Spans slot [slot] (slot + 1) := ⟨InOrder.single.mpr rfl, rfl⟩

theorem append (before : Spans start first middle) (behind : Spans middle last stop) :
    Spans start (first ++ last) stop := by
  obtain ⟨former, rfl⟩ := before
  obtain ⟨latter, rfl⟩ := behind
  exact ⟨InOrder.append.mpr ⟨former, latter⟩, by rw [List.length_append, Nat.add_assoc]⟩

end Spans

namespace Grammar

def Item.Over (words : Vocabulary) : Item α → α → Prop
  | .expression, e => e.Over words
  | .entry, (key, e) => words.key key ∧ e.Over words

/-- What a phrase means is over a vocabulary. -/
def Category.Over (words : Vocabulary) : Category α → α → Prop
  | .arguments, es => ∀ e ∈ es, e.Over words
  | .entry, (key, e) => words.key key ∧ e.Over words
  | .items item, values | .enclosed item _, values => ∀ value ∈ values, item.Over words value
  | .conditional, e | .binary _, e | .unary, e | .pipeline, e | .member, e | .primary, e => e.Over words

def Item.slots : Item α → List α → List Nat
  | .expression, es => Expr.pipeSlotsAll es
  | .entry, entries => Expr.pipeSlotsEntries entries

/-- The slots of the pipes in what a phrase means. -/
def Category.slots : Category α → α → List Nat
  | .arguments, es => Expr.pipeSlotsAll es
  | .entry, (_, e) => e.pipeSlots
  | .items item, values | .enclosed item _, values => item.slots values
  | .conditional, e | .binary _, e | .unary, e | .pipeline, e | .member, e | .primary, e => e.pipeSlots

theorem Category.slots_one (item : Item α) (value : α) :
    (Category.items item).slots [value] = item.category.slots value := by
  cases item <;> exact List.append_nil _

theorem Category.slots_more (item : Item α) (values : List α) (value : α) :
    (Category.items item).slots (values ++ [value]) =
      (Category.items item).slots values ++ item.category.slots value := by
  rw [← slots_one]
  cases item with
  | expression => simp [slots, Item.slots, Expr.pipeSlotsAll_eq]
  | entry => simp [slots, Item.slots, Expr.pipeSlotsEntries_eq]

theorem Category.slots_argument (es : List Expr) (e : Expr) :
    Category.arguments.slots (es ++ [e]) = Category.arguments.slots es ++ e.pipeSlots :=
  slots_more .expression es e

variable {Middle : Ending → Prop} {category : Category α} {tokens : List Token} {start stop : Nat}
  {value : α} {ending : Ending}

/-- Phrases of the lexer's tokens mean expressions over their vocabulary. -/
theorem Phrase.over (phrase : Phrase Middle category tokens start value ending stop) :
    (∀ token ∈ tokens, token.Lexed) → category.Over .lexed value := by
  induction phrase with
  | literal constant => exact fun lexed => (lexed _ List.mem_cons_self).literal constant
  | name name => exact fun lexed => ⟨.inl rfl, lexed (.ident name) List.mem_cons_self⟩
  | call name _ ih =>
    intro lexed
    refine ⟨.inl rfl, lexed (.ident name) List.mem_cons_self, Expr.overAll_iff.mpr (ih ?_)⟩
    exact fun token member => lexed token (by simp [member])
  | group _ ih | filled _ _ ih | signed _ _ ih =>
    exact fun lexed => ih fun token member => lexed token (by simp [member])
  | operand _ ih | unpiped _ ih | unsigned _ ih | plain _ ih => exact ih
  | array _ ih =>
    exact fun lexed => Expr.overAll_iff.mpr (ih fun token member => lexed token (by simp [member]))
  | map _ ih =>
    exact fun lexed => Expr.overEntries_iff.mpr (ih fun token member => lexed token (by simp [member]))
  | entry _ _ ih => exact fun lexed => ⟨trivial, ih fun token member => lexed token (by simp [member])⟩
  | @one _ _ _ _ _ _ item _ ih =>
    intro lexed
    cases item <;> exact List.forall_mem_singleton.mpr (ih lexed)
  | @more _ _ _ _ _ _ _ _ _ item _ _ _ ihBefore ihLast =>
    intro lexed
    have before := ihBefore fun token member => lexed token (by simp [member])
    have last := ihLast fun token member => lexed token (by simp [member])
    cases item <;> exact List.forall_mem_append.mpr ⟨before, List.forall_mem_singleton.mpr last⟩
  | empty | noArgument => exact fun _ => List.forall_mem_nil _
  | property name _ ih =>
    exact fun lexed => ⟨.inr (ih fun token member => lexed token (by simp [member])),
      lexed (.ident name) (by simp)⟩
  | method name _ _ ih ihArgs =>
    intro lexed
    refine ⟨.inr (ih ?_), lexed (.ident name) (by simp), Expr.overAll_iff.mpr (ihArgs ?_)⟩ <;>
      exact fun token member => lexed token (by simp [member])
  | keyed _ _ ih ihKey =>
    intro lexed
    refine ⟨ih ?_, ihKey ?_⟩ <;> exact fun token member => lexed token (by simp [member])
  | apply _ _ _ ih ihArgs =>
    intro lexed
    refine ⟨ih ?_, trivial, Expr.overAll_iff.mpr (ihArgs ?_)⟩ <;>
      exact fun token member => lexed token (by simp [member])
  | argument _ _ ih ihLast =>
    intro lexed
    refine List.forall_mem_append.mpr ⟨ih ?_, List.forall_mem_singleton.mpr (ihLast ?_)⟩ <;>
      exact fun token member => lexed token (by simp [member])
  | pipe name _ _ ih ihArgs =>
    intro lexed
    refine ⟨ih ?_, lexed (.ident name) (by simp), Expr.overAll_iff.mpr (ihArgs ?_)⟩ <;>
      exact fun token member => lexed token (by simp [member])
  | single level _ ih => cases level <;> exact ih
  | @binary _ _ _ _ _ _ _ _ _ level _ _ _ _ _ _ ih ihRight =>
    intro lexed
    have left := ih fun token member => lexed token (by simp [member])
    have right := ihRight fun token member => lexed token (by simp [member])
    cases level <;> exact ⟨left, right⟩
  | choice _ _ _ _ ih ihYes ihNo =>
    intro lexed
    refine ⟨ih ?_, ihYes ?_, ihNo ?_⟩ <;> exact fun token member => lexed token (by simp [member])

/-- Phrases take their slots one after the other. -/
theorem Phrase.spans (phrase : Phrase Middle category tokens start value ending stop) :
    Spans start (category.slots value) stop := by
  induction phrase with
  | literal | name | noArgument => exact .nil _
  | empty item => cases item <;> exact .nil _
  | call _ _ ih | group _ ih | array _ ih | map _ ih | entry _ _ ih | filled _ _ ih | operand _ ih
    | property _ _ ih | unpiped _ ih | unsigned _ ih | signed _ _ ih | plain _ ih => exact ih
  | one _ ih =>
    rw [Category.slots_one]
    exact ih
  | more _ _ ih ihLast =>
    rw [Category.slots_more]
    exact ih.append ihLast
  | argument _ _ ih ihLast =>
    rw [Category.slots_argument]
    exact ih.append ihLast
  | method _ _ _ ih ihOther | keyed _ _ ih ihOther | apply _ _ _ ih ihOther => exact ih.append ihOther
  | pipe _ _ _ ih ihArgs => exact (ih.append ihArgs).append (.single _)
  | single level _ ih => cases level <;> exact ih
  | @binary _ _ _ _ _ _ _ _ _ level _ _ _ _ _ _ ih ihRight => cases level <;> exact ih.append ihRight
  | choice _ _ _ _ ih ihYes ihNo => exact (ih.append ihYes).append ihNo

end Grammar

/-- A text takes the slots of its pipes, one after the other. -/
theorem parseSegment_spans {offset start stop : Nat} {text : List Char} {e : Expr}
    (read : parseSegment offset text start = .ok (e, stop)) : Spans start e.pipeSlots stop := by
  obtain ⟨tokens, -, ending, phrase⟩ := Grammar.parseSegment_ok_iff.mp read
  exact phrase.spans

/-- Accepted expressions are made of the lexer's tokens, and their pipes are numbered in order. -/
theorem parse_lexed {text location : String} {source : Source}
    (read : parse .binding text location = .ok source) :
    source.expr.Over .lexed ∧ InOrder 0 source.expr.pipeSlots := by
  obtain ⟨tokens, ran, ending, phrase⟩ := Grammar.parseSegment_ok_iff.mp (parse_binding_ok_iff.mp read).1
  exact ⟨phrase.over (tokenizeFrom_lexed ran), phrase.spans.1⟩

end ChangeWatch
