import ChangeWatch.Proofs.Lexemes.Longest
import ChangeWatch.Proofs.Lexemes.Places

/-!
Tokens tile a text. Each stands where the longest word of the patterns stands, they are in order, and only
blanks are left between them. A token that is cut on its own is the same token, and a part of a text has the
tokens it has on its own, further to the right.
-/
namespace ChangeWatch

variable {offset : Nat} {s before after : List Char} {c : Char} {text : String} {token : Spanned}
  {tokens : List Spanned}

/-- A text from a place on, as tokens and blanks. -/
inductive Tiling : Nat → List Char → List Spanned → Prop where
  | nil (offset : Nat) : Tiling offset [] []
  | blank {offset : Nat} {c : Char} {s : List Char} {tokens : List Spanned} (blank : Lexer.isBlank c = true)
      (others : Tiling (offset + c.utf8Size) s tokens) : Tiling offset (c :: s) tokens
  | token {offset stop : Nat} {letters rest : List Char} {token : Token} {tokens : List Spanned}
      (lexeme : Lexer.Lexeme letters rest token) (filled : letters ≠ [])
      (ends : stop = offset + Lexer.byteSize letters) (others : Tiling stop rest tokens) :
      Tiling offset (letters ++ rest) ({ token, start := offset, stop } :: tokens)

theorem cutAll_tiling {steps : Nat} (enough : s.length ≤ steps)
    (cut : Lexer.cutAll steps offset s = .ok tokens) : Tiling offset s tokens := by
  induction steps generalizing offset s tokens with
  | zero =>
    obtain rfl := List.length_eq_zero_iff.mp (Nat.le_zero.mp enough)
    cases cut
    exact .nil offset
  | succ steps ih =>
    cases s with
    | nil =>
      cases cut
      exact .nil offset
    | cons c s =>
      have fewer : s.length ≤ steps := Nat.le_of_succ_le_succ enough
      rw [Lexer.cutAll] at cut
      split at cut
      · rename_i blank
        exact .blank blank (ih fewer cut)
      · rename_i ink
        split at cut
        · cases cut
        · rename_i token letters rest taken
          simp only at cut
          split at cut
          · rename_i others ran
            cases cut
            obtain ⟨more, rfl, rfl, lexeme⟩ := Lexer.cut_lexeme (Bool.eq_false_of_not_eq_true ink) taken
            have less : rest.length ≤ steps := by
              rw [List.length_append] at fewer
              exact Nat.le_of_add_left_le fewer
            exact .token lexeme (List.cons_ne_nil c more) rfl (ih less ran)
          · cases cut

theorem tokenizeFrom_tiling (accepted : tokenizeFrom offset s = .ok tokens) : Tiling offset s tokens :=
  cutAll_tiling (Nat.le_refl _) accepted

namespace Tiling

/-- Every token has its letters under it. -/
theorem letters (tiling : Tiling offset s tokens) (member : token ∈ tokens) :
    ∃ before letters after, s = before ++ (letters ++ after) ∧
      token.start = offset + Lexer.byteSize before ∧ token.stop = token.start + Lexer.byteSize letters ∧
      letters ≠ [] ∧ Lexer.Lexeme letters after token.token := by
  induction tiling with
  | nil => cases member
  | @blank offset c s tokens blank _ ih =>
    obtain ⟨before, letters, after, rfl, start, others⟩ := ih member
    exact ⟨c :: before, letters, after, rfl, by rw [start, Lexer.byteSize, Nat.add_assoc], others⟩
  | @token offset stop letters rest token tokens lexeme filled ends _ ih =>
    rcases List.mem_cons.mp member with rfl | behind
    · exact ⟨[], letters, rest, rfl, rfl, ends, filled, lexeme⟩
    · obtain ⟨before, others, after, rfl, start, beside⟩ := ih behind
      refine ⟨letters ++ before, others, after, (List.append_assoc _ _ _).symm, ?_, beside⟩
      rw [start, ends, Lexer.byteSize_append, Nat.add_assoc]

theorem start_le (tiling : Tiling offset s tokens) (member : token ∈ tokens) : offset ≤ token.start := by
  obtain ⟨before, _, _, _, start, _⟩ := tiling.letters member
  rw [start]
  exact Nat.le_add_right offset _

theorem ordered (tiling : Tiling offset s tokens) :
    tokens.Pairwise fun first second => first.stop ≤ second.start := by
  induction tiling with
  | nil => exact .nil
  | blank _ _ ih => exact ih
  | token _ _ _ others ih => exact .cons (fun _ behind => others.start_le behind) ih

/-- What no token covers is a blank. -/
theorem blank_of_uncovered (tiling : Tiling offset s tokens) (split : s = before ++ c :: after)
    (uncovered : ∀ token ∈ tokens, token.start ≤ offset + Lexer.byteSize before →
      token.stop ≤ offset + Lexer.byteSize before) : Lexer.isBlank c = true := by
  induction tiling generalizing before with
  | nil => cases before <;> cases split
  | @blank offset d s tokens blank _ ih =>
    cases before with
    | nil =>
      obtain ⟨rfl, -⟩ := List.cons.inj split
      exact blank
    | cons e before =>
      obtain ⟨rfl, rfl⟩ := List.cons.inj split
      rw [Lexer.byteSize, ← Nat.add_assoc] at uncovered
      exact ih rfl uncovered
  | @token offset stop letters rest token tokens _ _ ends _ ih =>
    obtain ⟨here, behind⟩ := List.forall_mem_cons.mp uncovered
    have inside : stop ≤ offset + Lexer.byteSize before := here (Nat.le_add_right offset _)
    rcases List.append_eq_append_iff.mp split with ⟨between, rfl, same⟩ | ⟨left, rfl, same⟩
    · rw [Lexer.byteSize_append, ← Nat.add_assoc, ← ends] at behind
      exact ih same behind
    · -- The token would cover the letter, unless the letter is the first behind it.
      rw [Lexer.byteSize_append] at ends
      have none : left = [] := by
        by_contra some
        have positive := Lexer.byteSize_pos some
        omega
      subst none
      have next : rest = [] ++ c :: after := same.symm
      have place : offset + Lexer.byteSize before = stop + Lexer.byteSize [] := ends.symm
      rw [place] at behind
      exact ih next behind

end Tiling

/-- Letters that mean a token are tokenized to it. -/
theorem Lexer.Means.tokenize {letters : List Char} {token : Token} (means : Means letters token)
    (location : String) :
    tokenize (String.ofList letters) location = .ok [{ token, start := 0, stop := byteSize letters }] := by
  obtain ⟨c, more, rfl, ink, taken⟩ := means.taken
  rw [List.append_nil] at taken
  have nothing : cutAll more.length (byteSize (c :: more)) [] = .ok [] := by
    cases more <;> rfl
  rw [ChangeWatch.tokenize, tokenizeFrom, String.toList_ofList, List.length_cons, cutAll,
    if_neg (by rw [ink]; exact Bool.false_ne_true), taken]
  simp only [Nat.zero_add, nothing]

/-- The tokens of a text, and what is between them. -/
structure Tiled (text : String) (tokens : List Spanned) : Prop where
  filled : ∀ token ∈ tokens, token.start < token.stop
  ordered : tokens.Pairwise fun first second => first.stop ≤ second.start
  bounded : ∀ token ∈ tokens, token.stop ≤ text.utf8ByteSize ∧
    String.Pos.Raw.IsValid text ⟨token.start⟩ ∧ String.Pos.Raw.IsValid text ⟨token.stop⟩
  blanks : ∀ before c after, text.toList = before ++ c :: after →
    (∀ token ∈ tokens, token.start ≤ Lexer.byteSize before → token.stop ≤ Lexer.byteSize before) →
    c ∈ [' ', '\t', '\r', '\n']
  longest : ∀ token ∈ tokens, ∃ before letters after,
    Between text token.start token.stop before letters after ∧ Lexer.Lexeme letters after token.token
  alone : ∀ token ∈ tokens, ∀ location, tokenize (slice text token.start token.stop) location =
    .ok [{ token with start := 0, stop := token.stop - token.start }]

theorem Tiling.tiled (tiling : Tiling 0 text.toList tokens) : Tiled text tokens := by
  have letters (token : Spanned) (member : token ∈ tokens) : ∃ before letters after, letters ≠ [] ∧
      Between text token.start token.stop before letters after ∧
      Lexer.Lexeme letters after token.token := by
    obtain ⟨before, letters, after, split, start, stop, filled, lexeme⟩ := tiling.letters member
    rw [Nat.zero_add] at start
    exact ⟨before, letters, after, filled, ⟨split, start, stop⟩, lexeme⟩
  constructor
  case filled =>
    intro token member
    obtain ⟨_, _, _, filled, between, -⟩ := letters token member
    rw [between.stop_eq]
    exact Nat.lt_add_of_pos_right (Lexer.byteSize_pos filled)
  case ordered => exact tiling.ordered
  case bounded =>
    intro token member
    obtain ⟨_, _, _, -, between, -⟩ := letters token member
    exact ⟨between.stop_le, between.start_valid, between.stop_valid⟩
  case blanks =>
    intro before c after split uncovered
    have blank := tiling.blank_of_uncovered split (by simpa only [Nat.zero_add] using uncovered)
    simpa [Lexer.isBlank, or_assoc] using blank
  case longest =>
    intro token member
    obtain ⟨before, letters, after, -, between, lexeme⟩ := letters token member
    exact ⟨before, letters, after, between, lexeme⟩
  case alone =>
    intro token member location
    obtain ⟨before, letters, after, -, between, lexeme⟩ := letters token member
    rw [between.slice, lexeme.means.tokenize location, between.stop_eq, Nat.add_sub_cancel_left]

/-- The tokens of an accepted text tile it, and a part between two bounds of characters has the tokens, or
the fault, that it has as a text of its own, moved to where it starts. -/
theorem tokens_tile (text location : String) :
    (∀ tokens, tokenize text location = .ok tokens → Tiled text tokens) ∧
    ∀ start stop, String.Pos.Raw.IsValid text ⟨start⟩ → String.Pos.Raw.IsValid text ⟨stop⟩ → start ≤ stop →
      ∃ before part after, Between text start stop before part after ∧
        tokenizeFrom start part = ((tokenize (slice text start stop) location).map
          (List.map (Spanned.moved start))).mapError fun error => error.fault.moved start := by
  constructor
  · intro tokens accepted
    unfold tokenize at accepted
    split at accepted
    · rename_i ran
      cases accepted
      exact (tokenizeFrom_tiling ran).tiled
    · cases accepted
  · intro start stop first last order
    obtain ⟨before, part, after, between⟩ := Between.exist first last order
    refine ⟨before, part, after, between, ?_⟩
    have moved := tokenizeFrom_moved start 0 part
    rw [Nat.add_zero] at moved
    rw [between.slice, tokenize, String.toList_ofList, moved]
    cases tokenizeFrom 0 part <;> rfl

namespace Lexer.Samples

/-- A letter of two bytes in quotes, and a whole number that does not fit 64 bits. -/
def wide : String := " 'é' + 18446744073709551616"

def wideTokens : List Spanned :=
  [{ token := .str "é", start := 1, stop := 5 }, { token := .symbol .plus, start := 6, stop := 7 },
    { token := .float 18446744073709551616.0, start := 8, stop := 28 }]

end Lexer.Samples

open Lexer.Samples in
theorem tokens_tile_wide :
    tokenize wide "view" = .ok wideTokens ∧ Tiled wide wideTokens ∧
      ∃ before part after, Between wide 1 7 before part after ∧
        tokenizeFrom 1 part = ((tokenize (slice wide 1 7) "view").map
          (List.map (Spanned.moved 1))).mapError fun error => error.fault.moved 1 := by
  have read : tokenize wide "view" = .ok wideTokens := by decide +kernel
  have first : String.Pos.Raw.IsValid wide ⟨1⟩ := String.Pos.Raw.isValid_eq_true_iff.mp (by decide +kernel)
  have last : String.Pos.Raw.IsValid wide ⟨7⟩ := String.Pos.Raw.isValid_eq_true_iff.mp (by decide +kernel)
  obtain ⟨tiled, parts⟩ := tokens_tile wide "view"
  exact ⟨read, tiled wideTokens read, parts 1 7 first last (by decide)⟩

end ChangeWatch
