import ChangeWatch.Proofs.Segments.Relocation
import ChangeWatch.Proofs.Unparsing.Behind
import ChangeWatch.Proofs.Unparsing.RoundTrip

/-!
Which quoted texts and which keys are read back. Quotes keep all characters but those they write by their
number, for a number in braces is no escape. A key is read back when it is a name without a meaning of its
own, or when it needs quotes and they keep it: a word with a meaning gets no quotes, and is no key without
them.
-/
namespace ChangeWatch

open Grammar (Bracket Category Ending Phrase Sentence expressionWithin itemStep)
open Lexer (Cuts Apart Stops)
open Token (ident symbol)

/-- A quoted text is one token with its meaning just when quotes keep it. -/
theorem tokenize_quote_iff {s location : String} :
    tokenize (Text.quote s) location =
        .ok [{ token := .str s, start := 0, stop := Lexer.byteSize (Text.quote s).toList }] ↔
      IsKeptText s := by
  have ink : Lexer.isBlank '"' ≠ true := by decide
  rw [tokenize, tokenizeFrom, Text.toList_quote, List.length_cons, Lexer.cutAll, if_neg ink]
  by_cases kept : IsKeptText s
  · obtain ⟨c, letters, spelled, -, taken⟩ := Lexer.legible_quote kept [] .nil
    rw [Text.toList_quote] at spelled taken
    obtain ⟨rfl, rfl⟩ := List.cons.inj spelled
    rw [List.append_nil] at taken
    have ended (steps stop : Nat) : Lexer.cutAll steps stop [] = .ok [] := by cases steps <;> rfl
    simp only [taken, ended, Nat.zero_add, kept]
  · have numbered : ∃ c ∈ s.toList, ¬ Lexer.IsKept c := by simpa [IsKeptText] using kept
    rw [Lexer.cut_quote_invalid numbered []]
    simp [kept]

section Lexing

variable {key : String} {rest : List Char} {tokens : List Token}

/-- A word is a key only if it has no meaning of its own. -/
theorem isIdentifier_of_word (shape : isName key = true) (known : (Lexer.word key).key? ≠ none) :
    IsIdentifier key := by
  refine ⟨shape, fun keyword same => known ?_⟩
  subst same
  cases keyword <;> rfl

theorem word_ne_symbol (name : String) (sign : Symbol) : Lexer.word name ≠ symbol sign := by
  unfold Lexer.word
  (repeat' split) <;> simp

/-- What a text with a key in front is cut into: a token that is no symbol, and a key only if that is
readable. -/
theorem key_cut (cuts : Cuts Lexer.cut ((Expr.renderKey key).toList ++ rest) tokens []) (stops : Stops rest) :
    ∃ token more, tokens = token :: more ∧ Cuts Lexer.cut rest more [] ∧
      (∀ sign, token ≠ symbol sign) ∧ (token.key? ≠ none → IsReadableKey key) := by
  by_cases shape : isName key = true
  · rw [Expr.renderKey, if_pos shape] at cuts
    obtain ⟨more, same, behind⟩ := (Lexer.legible_word shape rest stops).cuts.left cuts
    exact ⟨Lexer.word key, more, same, behind, word_ne_symbol key,
      fun known => .inl (isIdentifier_of_word shape known)⟩
  · rw [Expr.renderKey, if_neg shape] at cuts
    by_cases kept : IsKeptText key
    · obtain ⟨more, same, behind⟩ := (Lexer.legible_quote kept rest stops).cuts.left cuts
      exact ⟨.str key, more, same, behind, by simp, fun _ => .inr ⟨by simpa using shape, kept⟩⟩
    · have numbered : ∃ c ∈ key.toList, ¬ Lexer.IsKept c := by simpa [IsKeptText] using kept
      rw [Text.toList_quote, List.cons_append, List.append_assoc] at cuts
      cases cuts with
      | blank blank => exact absurd blank (by decide)
      | token _ first =>
        rw [List.singleton_append, Lexer.cut_quote_invalid numbered rest] at first
        cases first

end Lexing

/-- A text that is cut into an expression, wherever its pipes are numbered from. -/
structure Reads (text : List Char) (tokens : List Token) : Prop where
  cuts : Cuts Lexer.cut text tokens []
  means : ∀ start, ∃ e stop, Sentence (· ≠ .pipe) tokens start e stop

theorem Reads.of_parse {text location : String} {source : Source}
    (read : parse .binding text location = .ok source) : ∃ tokens, Reads text.toList tokens := by
  obtain ⟨found, -⟩ := parse_binding_ok_iff.mp read
  obtain ⟨spanned, ran, -⟩ := Grammar.parseSegment_ok_iff.mp found
  refine ⟨spanned.map Spanned.token, .of_tokenize ran, fun start => ?_⟩
  have moved := parseSegment_moved 0 text.toList start
  rw [found] at moved
  obtain ⟨spanned', ran', sentence⟩ := Grammar.parseSegment_ok_iff.mp moved
  cases ran.symm.trans ran'
  exact ⟨_, _, sentence⟩

namespace Expr

/-- What stands behind an entry of a map: the other entries, and the closing brace. -/
def closing : List (String × Expr) → List Char
  | [] => ['\x7d']
  | (key, e) :: entries =>
    ',' :: ' ' :: ((renderKey key).toList ++ ':' :: ' ' :: (e.render.toList ++ closing entries))

theorem apart_closing (entries : List (String × Expr)) : Apart (closing entries) := by
  cases entries <;> exact .cons (by decide) (by decide)

theorem toList_render_map (key : String) (e : Expr) (entries : List (String × Expr)) :
    (map ((key, e) :: entries)).render.toList =
      '\x7b' :: ((renderKey key).toList ++ ':' :: ' ' :: (e.render.toList ++ closing entries)) := by
  have joined (text : String) : (", ".intercalate (text :: renderEntries entries)).toList ++ ['\x7d'] =
      text.toList ++ closing entries := by
    induction entries generalizing text with
    | nil => simp [renderEntries, closing]
    | cons entry entries ih =>
      have next := ih (text ++ ", " ++ (renderKey entry.1 ++ ": " ++ entry.2.render))
      refine Eq.trans next ?_
      simp [closing]
  have all := joined (renderKey key ++ ": " ++ e.render)
  simp only [render, renderEntries, String.toList_append, List.append_assoc] at all ⊢
  simpa using all

end Expr

end ChangeWatch
