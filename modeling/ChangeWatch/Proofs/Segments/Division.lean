import ChangeWatch.Expr.Interpolation

/-!
Cutting a text at doubled braces. The first opening pair ends a string, the first closing pair behind it
ends a body, and the rest is cut in the same way. Every text is cut like this in exactly one way.
-/
namespace ChangeWatch.Interpolation

/-- A brace stands twice in a row somewhere. -/
def Doubled (brace : Char) (text : List Char) : Prop := [brace, brace] <:+: text

/-- A doubled brace stands between two parts of a text, and there is none before. -/
def FirstPair (brace : Char) (text before after : List Char) : Prop :=
  text = before ++ brace :: brace :: after ∧ ¬ Doubled brace (before ++ [brace])

namespace Doubled

variable {brace c : Char} {text : List Char}

theorem not_nil : ¬ Doubled brace [] := by
  simp [Doubled]

theorem not_singleton : ¬ Doubled brace [c] := by
  intro doubled
  have less := doubled.length_le
  simp at less

theorem cons_iff : Doubled brace (c :: text) ↔
    c = brace ∧ text.head? = some brace ∨ Doubled brace text := by
  have first : [brace, brace] <+: c :: text ↔ c = brace ∧ text.head? = some brace := by
    cases text <;> simp [List.cons_prefix_cons, eq_comm]
  rw [Doubled, List.infix_cons_iff, first]
  rfl

/-- Another character keeps the two parts around it apart. -/
theorem append_cons_iff (other : c ≠ brace) {first last : List Char} :
    Doubled brace (first ++ c :: last) ↔ Doubled brace first ∨ Doubled brace last := by
  induction first with
  | nil => simp [cons_iff, other, not_nil]
  | cons d first ih =>
    have next : (first ++ c :: last).head? = some brace ↔ first.head? = some brace := by
      cases first <;> simp [other]
    rw [List.cons_append, cons_iff, cons_iff, ih, next, or_assoc]

theorem append_right (doubled : Doubled brace text) (others : List Char) :
    Doubled brace (text ++ others) :=
  doubled.trans (List.prefix_append text others).isInfix

end Doubled

variable {brace : Char} {text before after : List Char}

namespace FirstPair

theorem doubled (pair : FirstPair brace text before after) : Doubled brace text := by
  rw [pair.1]
  exact ⟨before, after, by simp⟩

/-- The part in front of the first pair has none. -/
theorem not_doubled (pair : FirstPair brace text before after) : ¬ Doubled brace before :=
  fun doubled => pair.2 (doubled.append_right [brace])

theorem nil (after : List Char) : FirstPair brace (brace :: brace :: after) [] after :=
  ⟨rfl, Doubled.not_singleton⟩

/-- A character in front of which no pair starts. -/
theorem cons {c : Char} (other : ¬ (c = brace ∧ text.head? = some brace))
    (pair : FirstPair brace text before after) : FirstPair brace (c :: text) (c :: before) after := by
  obtain ⟨rfl, none⟩ := pair
  refine ⟨rfl, ?_⟩
  rw [List.cons_append, Doubled.cons_iff]
  rintro (⟨here, next⟩ | doubled)
  · refine other ⟨here, ?_⟩
    cases before with
    | nil => rfl
    | cons d before => exact next
  · exact none doubled

end FirstPair

/-- A text is not split where no brace stands twice. -/
theorem splitPair_eq_none_iff : splitPair brace text = none ↔ ¬ Doubled brace text := by
  induction text with
  | nil => simp [splitPair, Doubled.not_nil]
  | cons c text ih =>
    rw [splitPair, Doubled.cons_iff]
    split
    · rename_i here
      simp [here]
    · rename_i other
      simp [other, ih]

instance (brace : Char) (text : List Char) : Decidable (Doubled brace text) :=
  decidable_of_iff ((splitPair brace text).isSome = true) <| by
    rw [Option.isSome_iff_ne_none, ne_eq, splitPair_eq_none_iff, Classical.not_not]

theorem FirstPair.of_splitPair (found : splitPair brace text = some (before, after)) :
    FirstPair brace text before after := by
  induction text generalizing before with
  | nil => cases found
  | cons c text ih =>
    rw [splitPair] at found
    split at found
    · rename_i here
      obtain ⟨rfl, next⟩ := here
      obtain ⟨rest, rfl⟩ := List.head?_eq_some_iff.mp next
      cases found
      exact .nil _
    · rename_i other
      obtain ⟨⟨former, rest⟩, split, same⟩ := Option.map_eq_some_iff.mp found
      cases same
      exact .cons other (ih split)

/-- There is only one first pair. -/
theorem FirstPair.splitPair (pair : FirstPair brace text before after) :
    splitPair brace text = some (before, after) := by
  obtain ⟨rfl, none⟩ := pair
  induction before with
  | nil => simp [Interpolation.splitPair]
  | cons c before ih =>
    rw [List.cons_append, Doubled.cons_iff, not_or] at none
    have other : ¬ (c = brace ∧ (before ++ brace :: brace :: after).head? = some brace) := by
      cases before <;> simpa using none.1
    rw [List.cons_append, Interpolation.splitPair, if_neg other, ih none.2]
    rfl

/-- Where a brace stands twice in a row, there is a first place. -/
theorem Doubled.exists_first (doubled : Doubled brace text) :
    ∃ before after, FirstPair brace text before after := by
  cases found : Interpolation.splitPair brace text with
  | none => exact absurd doubled (splitPair_eq_none_iff.mp found)
  | some parts => exact ⟨parts.1, parts.2, .of_splitPair found⟩

/-- A string and, between braces behind it, the text of an expression. -/
structure Piece where
  string : List Char
  body : List Char

/-- How a text ends behind its pieces: with a string, or with a string and an opening pair that nothing
closes. -/
inductive Tail where
  | plain (string : List Char)
  | unclosed (string rest : List Char)

/-- A text is cut again and again at the next opening pair and at the next closing pair behind it. -/
inductive Divides : List Char → List Piece → Tail → Prop where
  | plain {text : List Char} (none : ¬ Doubled '\x7b' text) : Divides text [] (.plain text)
  | unclosed {text string rest : List Char} (opening : FirstPair '\x7b' text string rest)
      (none : ¬ Doubled '\x7d' rest) : Divides text [] (.unclosed string rest)
  | piece {text string after body rest : List Char} {pieces : List Piece} {tail : Tail}
      (opening : FirstPair '\x7b' text string after) (closing : FirstPair '\x7d' after body rest)
      (others : Divides rest pieces tail) : Divides text ({ string, body } :: pieces) tail

/-- The letters of a piece, with its braces. -/
def Piece.letters (piece : Piece) : List Char :=
  piece.string ++ '\x7b' :: '\x7b' :: (piece.body ++ ['\x7d', '\x7d'])

def Tail.letters : Tail → List Char
  | plain string => string
  | unclosed string rest => string ++ '\x7b' :: '\x7b' :: rest

namespace Divides

variable {pieces pieces' : List Piece} {tail tail' : Tail}

/-- Nothing is lost. -/
theorem letters (divides : Divides text pieces tail) :
    pieces.flatMap Piece.letters ++ tail.letters = text := by
  induction divides with
  | plain => rfl
  | unclosed opening => exact opening.1.symm
  | piece opening closing _ ih =>
    obtain ⟨rfl, -⟩ := opening
    obtain ⟨rfl, -⟩ := closing
    simp [Piece.letters, ← ih]

/-- What is behind the first piece is cut like the whole. -/
theorem behind {piece : Piece} (divides : Divides text (piece :: pieces) tail) :
    ∃ after rest, FirstPair '\x7b' text piece.string after ∧ FirstPair '\x7d' after piece.body rest ∧
      Divides rest pieces tail ∧ rest.length < text.length := by
  cases divides with
  | piece opening closing others =>
    refine ⟨_, _, opening, closing, others, ?_⟩
    rw [opening.1, closing.1]
    simp only [List.length_append, List.length_cons]
    omega

/-- Every text can be cut: a piece takes four braces at least, so less is left behind it. -/
theorem exist (text : List Char) : ∃ pieces tail, Divides text pieces tail := by
  induction size : text.length using Nat.strongRecOn generalizing text with
  | ind count ih =>
    by_cases opened : Doubled '\x7b' text
    · obtain ⟨string, after, opening⟩ := opened.exists_first
      by_cases closed : Doubled '\x7d' after
      · obtain ⟨body, rest, closing⟩ := closed.exists_first
        have less : rest.length < count := by
          rw [← size, opening.1, closing.1]
          simp only [List.length_append, List.length_cons]
          omega
        obtain ⟨pieces, tail, others⟩ := ih rest.length less rest rfl
        exact ⟨{ string, body } :: pieces, tail, .piece opening closing others⟩
      · exact ⟨[], .unclosed string after, .unclosed opening closed⟩
    · exact ⟨[], .plain text, .plain opened⟩

/-- There is one way to cut a text. -/
theorem unique (divides : Divides text pieces tail) (other : Divides text pieces' tail') :
    pieces' = pieces ∧ tail' = tail := by
  induction divides generalizing pieces' tail' with
  | plain none =>
    cases other with
    | plain => exact ⟨rfl, rfl⟩
    | unclosed opening | piece opening => exact absurd opening.doubled none
  | unclosed opening none =>
    cases other with
    | plain none' => exact absurd opening.doubled none'
    | unclosed opening' =>
      cases opening.splitPair.symm.trans opening'.splitPair
      exact ⟨rfl, rfl⟩
    | piece opening' closing =>
      cases opening.splitPair.symm.trans opening'.splitPair
      exact absurd closing.doubled none
  | piece opening closing _ ih =>
    cases other with
    | plain none' => exact absurd opening.doubled none'
    | unclosed opening' none' =>
      cases opening.splitPair.symm.trans opening'.splitPair
      exact absurd closing.doubled none'
    | piece opening' closing' others =>
      cases opening.splitPair.symm.trans opening'.splitPair
      cases closing.splitPair.symm.trans closing'.splitPair
      obtain ⟨rfl, rfl⟩ := ih others
      exact ⟨rfl, rfl⟩

end Divides
end ChangeWatch.Interpolation
