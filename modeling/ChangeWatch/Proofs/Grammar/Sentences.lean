import ChangeWatch.Expr.Interpolation
import ChangeWatch.Proofs.Grammar.Completeness
import ChangeWatch.Proofs.Grammar.Soundness

/-!
Which texts are expressions, and what they mean. The grammar as it is written down says nothing about a
colon that could give a pipe an argument or end a branch. The parser gives it to the pipe, so a branch
between a question mark and its colon does not end in a pipe; in all else it reads what is written down.
Text around expressions is accepted for its segments, each an expression of its own.
-/
namespace ChangeWatch

/-- A text is accepted for its tree and the number of its pipes. -/
theorem parse_binding_ok_iff {text location : String} {source : Source} :
    parse .binding text location = .ok source ↔
      parseSegment 0 text.toList 0 = .ok (source.expr, source.slots) ∧
        source.text = text ∧ source.location = location := by
  obtain ⟨expr, _, _, slots⟩ := source
  simp only [parse, parseBinding]
  cases parseSegment 0 text.toList 0 with
  | error fault => simp
  | ok found =>
    simp only [Except.ok.injEq, Source.mk.injEq, Prod.ext_iff]
    constructor
    · rintro ⟨rfl, rfl, rfl, rfl⟩
      exact ⟨⟨rfl, rfl⟩, rfl, rfl⟩
    · rintro ⟨⟨rfl, rfl⟩, rfl, rfl⟩
      exact ⟨rfl, rfl, rfl, rfl⟩

theorem parse_binding_error_iff {text location : String} {error : ParseError} :
    parse .binding text location = .error error ↔
      parseSegment 0 text.toList 0 = .error error.fault ∧
        error.input = text ∧ error.location = location := by
  obtain ⟨fault, _, _⟩ := error
  simp only [parse, parseBinding]
  cases parseSegment 0 text.toList 0 with
  | error fault =>
    simp only [Except.error.injEq, ParseError.mk.injEq]
    constructor
    · rintro ⟨rfl, rfl, rfl⟩
      exact ⟨rfl, rfl, rfl⟩
    · rintro ⟨rfl, rfl, rfl⟩
      exact ⟨rfl, rfl, rfl⟩
  | ok found => simp

namespace Interpolation

/-- Expressions that are accepted one after the other, with their pipe slots from one number up to another. -/
inductive Segments : Nat → List Expr → Nat → Prop where
  | nil (slots : Nat) : Segments slots [] slots
  | cons {offset start middle stop : Nat} {text : List Char} {e : Expr} {es : List Expr}
      (first : parseSegment offset text start = .ok (e, middle)) (others : Segments middle es stop) :
      Segments start (e :: es) stop

theorem pieces_segments (steps : Nat) {offset slots : Nat} {text : List Char} {found : Pieces}
    (read : pieces steps offset text slots = .ok found) : Segments slots found.expressions found.slots := by
  induction steps generalizing offset slots text found with
  | zero =>
    cases read
    exact .nil slots
  | succ steps ih =>
    simp only [pieces, Bind.bind, Except.bind] at read
    split at read
    · cases read
      exact .nil slots
    · split at read
      · cases read
      · split at read
        · cases read
        · rename_i first segment
          split at read
          · cases read
          · rename_i others rest
            cases read
            exact .cons segment (ih rest)

end Interpolation

theorem parse_interpolation_segments {text location : String} {source : Source}
    (read : parse .interpolation text location = .ok source) :
    ∃ strings es, source.expr = .interpolation strings es ∧ Interpolation.Segments 0 es source.slots := by
  simp only [parse, parseInterpolation, Bind.bind, Except.bind] at read
  cases found : Interpolation.pieces text.length 0 text.toList 0 with
  | error fault =>
    rw [found] at read
    cases read
  | ok pieces =>
    rw [found] at read
    cases read
    exact ⟨pieces.strings, pieces.expressions, rfl, Interpolation.pieces_segments text.length found⟩

end ChangeWatch

namespace ChangeWatch.Grammar

open Token (symbol ident)

variable {tokens : List Token} {start stop : Nat} {e : Expr}

theorem expression_sentence {cursor after : Cursor} (ran : expression cursor = .ok (e, after)) :
    ∃ used, cursor.tokens = used ++ after.tokens ∧
      Sentence (· ≠ .pipe) used cursor.slots e after.slots := by
  obtain ⟨used, split, ending, phrase, -⟩ := expressionWithin_found _ e after ran
  exact ⟨used, split, ending, phrase⟩

theorem Sentence.expression (sentence : Sentence (· ≠ .pipe) tokens start e stop) :
    Parse.Gives expression (tokens, start) e ([], stop) := by
  obtain ⟨ending, phrase⟩ := sentence
  intro cursor here
  have left : cursor.tokens = tokens := here.1
  have fits : tokens.length < cursor.rest.length + 1 :=
    Nat.lt_succ_of_le (left ▸ cursor.length_tokens_le)
  have found := phrase.complete (cursor.rest.length + 1) [] fits nofun
  rw [List.append_nil] at found
  exact found cursor here

/-- Tokens mean at most one thing. -/
theorem Sentence.unique {e' : Expr} {stop' : Nat} (sentence : Sentence (· ≠ .pipe) tokens start e stop)
    (other : Sentence (· ≠ .pipe) tokens start e' stop') : e = e' ∧ stop = stop' := by
  have here : Parse.At (tokens, start)
      { rest := tokens.map fun token => { token, start := 0, stop := 0 }, slots := start } :=
    ⟨by simp [Cursor.tokens, Function.comp_def], rfl⟩
  obtain ⟨after, ran, -, rfl⟩ := sentence.expression _ here
  obtain ⟨after', ran', -, rfl⟩ := other.expression _ here
  cases ran.symm.trans ran'
  exact ⟨rfl, rfl⟩

theorem whole_ok_iff {cursor after : Cursor} :
    whole cursor = .ok (e, after) ↔
      after.rest = [] ∧ Sentence (· ≠ .pipe) cursor.tokens cursor.slots e after.slots := by
  rw [whole, Parse.bind_ok]
  constructor
  · rintro ⟨found, middle, ran, ends⟩
    split at ends
    · rename_i none
      cases ends
      rw [List.isEmpty_iff] at none
      obtain ⟨used, split, sentence⟩ := expression_sentence ran
      rw [split, Cursor.tokens, none, List.map_nil, List.append_nil]
      exact ⟨rfl, sentence⟩
    · exact absurd ends Parse.unexpected_ne_ok
  · rintro ⟨none, sentence⟩
    obtain ⟨last, ran, left, same⟩ := sentence.expression cursor ⟨rfl, rfl⟩
    have empty : last.rest = [] := List.map_eq_nil_iff.mp left
    obtain rfl : last = after := by
      obtain ⟨_, _⟩ := last
      obtain ⟨_, _⟩ := after
      obtain rfl : _ = [] := empty
      obtain rfl : _ = [] := none
      obtain rfl := same
      rfl
    exact ⟨e, last, ran, if_pos (by rw [none]; rfl)⟩

theorem Sentence.ne_nil {Middle : Ending → Prop} (sentence : Sentence Middle tokens start e stop) :
    tokens ≠ [] := by
  obtain ⟨ending, phrase⟩ := sentence
  obtain ⟨token, rest, rfl, -⟩ := phrase.starts
  nofun

/-- A text is an expression when its tokens are a sentence. -/
theorem parseSegment_ok_iff {offset : Nat} {text : List Char} :
    parseSegment offset text start = .ok (e, stop) ↔
      ∃ tokens, tokenizeFrom offset text = .ok tokens ∧
        Sentence (· ≠ .pipe) (tokens.map Spanned.token) start e stop := by
  cases cut : tokenizeFrom offset text with
  | error fault =>
    simp only [parseSegment, cut]
    constructor
    · nofun
    · rintro ⟨_, ⟨⟩, _⟩
  | ok tokens =>
    simp only [parseSegment, cut, Bind.bind, Except.bind, StateT.run, Except.ok.injEq, exists_eq_left']
    constructor
    · intro ran
      split at ran
      · cases ran
      · cases read : whole { rest := tokens, slots := start } with
        | error fault =>
          rw [read] at ran
          cases ran
        | ok found =>
          rw [read] at ran
          cases ran
          exact (whole_ok_iff.mp read).2
    · intro sentence
      have some : tokens.isEmpty ≠ true := by
        rintro none
        rw [List.isEmpty_iff.mp none] at sentence
        exact sentence.ne_nil rfl
      have read : whole { rest := tokens, slots := start } = .ok (e, { rest := [], slots := stop }) :=
        whole_ok_iff.mpr ⟨rfl, sentence⟩
      rw [if_neg some, read]
      rfl

/-- The parser reads the grammar as it is written down, but for branches that end in a pipe before their
colon: it gives a value for a list of tokens, or for a text, just when that is a sentence, and the value is
what the sentence means. -/
theorem accepts_sentences :
    (∀ (cursor after : Cursor) (e : Expr), whole cursor = .ok (e, after) ↔
      after.rest = [] ∧ Sentence (· ≠ .pipe) cursor.tokens cursor.slots e after.slots) ∧
    ∀ (text location : String) (source : Source), parse .binding text location = .ok source ↔
      source.text = text ∧ source.location = location ∧
        ∃ tokens, tokenize text location = .ok tokens ∧
          Sentence (· ≠ .pipe) (tokens.map Spanned.token) 0 source.expr source.slots := by
  refine ⟨fun _ _ _ => whole_ok_iff, fun text location source => ?_⟩
  have cut (tokens : List Spanned) : tokenize text location = .ok tokens ↔
      tokenizeFrom 0 text.toList = .ok tokens := by
    unfold tokenize
    cases tokenizeFrom 0 text.toList <;> simp
  have read := @parseSegment_ok_iff 0 source.slots source.expr 0 text.toList
  simp only [cut, ← read, parse, parseBinding]
  obtain ⟨expr, _, _, slots⟩ := source
  cases parseSegment 0 text.toList 0 with
  | error fault => simp
  | ok found =>
    simp only [Except.ok.injEq, Source.mk.injEq, Prod.ext_iff]
    constructor
    · rintro ⟨rfl, rfl, rfl, rfl⟩
      exact ⟨rfl, rfl, rfl, rfl⟩
    · rintro ⟨rfl, rfl, rfl, rfl⟩
      exact ⟨rfl, rfl, rfl, rfl⟩

/-- A sentence of the grammar as it is written down that the parser does not accept: a condition whose
first branch ends in a pipe. -/
theorem piped_branch_rejected :
    ∃ tokens, tokenize "a ? b | p : c" "" = .ok tokens ∧
      Sentence (fun _ => True) (tokens.map Spanned.token) 0
        (.conditional (.name "a") (.pipe (.name "b") "p" [] 0) (.name "c")) 1 ∧
      ∀ e after, whole { rest := tokens, slots := 0 } ≠ .ok (e, after) := by
  let name (name : String) (start : Nat) : Spanned := { token := ident name, start, stop := start + 1 }
  let sign (sign : Symbol) (start : Nat) : Spanned := { token := symbol sign, start, stop := start + 1 }
  refine ⟨[name "a" 0, sign .question 2, name "b" 4, sign .bar 6, name "p" 8, sign .colon 10,
    name "c" 12], by rfl, ⟨.name, ?_⟩, nofun⟩
  have member (name : String) (slot : Nat) :
      Phrase (fun _ => True) .member [ident name] slot (.name name) .name slot :=
    .operand (.name name slot)
  have piped := Phrase.pipe "p" (.unpiped (member "b" 0)) (.noArgument 0)
  have yes := ((Phrase.unsigned piped).level .disjunction).expression
  exact ((member "a" 0).unary.level .disjunction).choice yes trivial (member "c" 1).nested

end ChangeWatch.Grammar
