import Mathlib
import ChangeWatch.Proofs.Unparsing.Keys

/-!
Which texts of maps are read back with their keys. The parser goes through the entries from the front. It
takes each one whose key is readable and comes to the next, and it takes no other.
-/
namespace ChangeWatch

open Grammar (Category Ending Item Phrase Sentence expressionWithin itemStep)
open Lexer (Apart Cuts)
open Parse (At Gives bind_ok)
open Token (symbol)

/-- Where a parser gives something, it gives nothing else. -/
theorem Parse.Gives.of_ok {p : Parse α} {start stop : Parse.Point} {value found : α} {cursor after : Cursor}
    (gives : Gives p start value stop) (here : At start cursor) (ran : p cursor = .ok (found, after)) :
    found = value ∧ At stop after := by
  obtain ⟨last, ran', there⟩ := gives cursor here
  cases ran.symm.trans ran'
  exact ⟨rfl, there⟩

section Entries

variable {key : String} {e : Expr} {entries : List (String × Expr)} {tokens : List Token} {start : Nat}

/-- Behind the last letters of an entry, a comma or a closing brace ends every phrase. -/
theorem ends_of_closing (cuts : Cuts Lexer.cut (Expr.closing entries) tokens []) (ending : Ending) :
    Category.conditional.Ends ending tokens := by
  cases entries with
  | nil =>
    obtain ⟨more, rfl, -⟩ := (cuts_right [] .curly).left cuts
    exact .right .curly
  | cons entry entries =>
    obtain ⟨more, rfl, -⟩ := (cuts_comma _).left cuts
    exact .comma

/-- What the text of an entry is cut into. -/
theorem entry_cut {text behind : List Char} {value : List Token} (reads : Reads text value)
    (apart : Apart behind)
    (cuts : Cuts Lexer.cut ((Expr.renderKey key).toList ++ ':' :: ' ' :: (text ++ behind)) tokens []) :
    ∃ token more, tokens = token :: symbol .colon :: (value ++ more) ∧ Cuts Lexer.cut behind more [] ∧
      (∀ sign, token ≠ symbol sign) ∧ (token.key? ≠ none → IsReadableKey key) := by
  obtain ⟨token, rest, rfl, colon, other, readable⟩ := key_cut cuts (.cons (by decide) (by decide))
  have blank : Cuts Lexer.cut (':' :: ' ' :: (text ++ behind)) (symbol .colon :: value) behind :=
    (cuts_colon _).append (.blank rfl (reads.cuts.behind apart))
  obtain ⟨more, rfl, last⟩ := blank.left colon
  exact ⟨token, more, rfl, last, other, readable⟩

/-- An entry that is taken has a token of a key in front, and the parser stops behind its value. -/
theorem entry_taken {token : Token} {value more : List Token} {depth : Nat} {cursor after : Cursor}
    {entry : String × Expr} (means : ∀ start, ∃ e stop, Sentence (· ≠ .pipe) value start e stop)
    (ends : ∀ ending, Category.conditional.Ends ending more)
    (fits : value.length + 2 < depth)
    (here : At (token :: symbol .colon :: (value ++ more), start) cursor)
    (ran : Grammar.entry (expressionWithin depth) cursor = .ok (entry, after)) :
    token.key? ≠ none ∧ ∃ stop, At (more, stop) after := by
  obtain ⟨e, stop, ending, phrase⟩ := means start
  cases named : token.key? with
  | none =>
    obtain ⟨key, middle, first, -⟩ := bind_ok.mp ran
    obtain ⟨rest, slots⟩ := cursor
    cases rest with
    | nil => cases here.1
    | cons found rest =>
      obtain ⟨found, _, _⟩ := found
      obtain rfl : found = token := (List.cons.inj here.1).1
      cases found with
      | ident | str => cases named
      | keyword | int | float | symbol => cases first
  | some key =>
    have gives : Gives (Grammar.entry (expressionWithin depth)) _ _ _ :=
      (phrase.entry named).complete depth more (by simpa using fits) (ends ending)
    exact ⟨nofun, stop, (gives.of_ok here ran).2⟩

/-- All the keys behind an entry are readable if the parser goes through them. -/
theorem readable_of_iterate (reads : ∀ entry ∈ entries, ∃ value, Reads entry.2.render.toList value)
    (cuts : Cuts Lexer.cut (Expr.closing entries) tokens []) {depth steps : Nat} {cursor after : Cursor}
    {values found : List (String × Expr)} (here : At (tokens, start) cursor)
    (fits : tokens.length < depth) (enough : tokens.length ≤ steps)
    (ran : Parse.iterate (itemStep (Grammar.entry (expressionWithin depth))) steps values cursor =
      .ok (found, after)) : ∀ entry ∈ entries, IsReadableKey entry.1 := by
  induction entries generalizing tokens start steps cursor values with
  | nil => exact List.forall_mem_nil _
  | cons entry entries ih =>
    obtain ⟨⟨value, first⟩, others⟩ := List.forall_mem_cons.mp reads
    obtain ⟨rest, rfl, behind⟩ := (cuts_comma _).left cuts
    obtain ⟨token, more, rfl, last, -, readable⟩ := entry_cut first (Expr.apart_closing entries) behind
    cases steps with
    | zero => cases enough
    | succ steps =>
      obtain ⟨added, middle, step, ran⟩ := bind_ok.mp ran
      obtain ⟨comma, there, eaten, step⟩ := bind_ok.mp step
      obtain ⟨rfl, there⟩ := Gives.eat_here.of_ok here eaten
      obtain ⟨pair, between, item, step⟩ := bind_ok.mp step
      cases step
      have fits : value.length + 2 < depth := by
        simp only [List.length_append, List.length_cons] at fits
        omega
      obtain ⟨known, stop, next⟩ := entry_taken first.means (ends_of_closing last) fits there item
      refine List.forall_mem_cons.mpr ⟨readable known, ih others last next ?_ ?_ ran⟩ <;>
      · simp only [List.length_append, List.length_cons] at *
        omega

end Entries

section Whole

variable {key text location : String} {e : Expr} {entries : List (String × Expr)} {tokens : List Token}
  {start : Nat}

/-- A text that starts with an opening brace is accepted only if the entries behind it are. -/
theorem entries_of_whole {cursor after : Cursor} (here : At (symbol .leftBrace :: tokens, start) cursor)
    (ran : Grammar.whole cursor = .ok (e, after)) : ∃ inside last found, At (tokens, start) inside ∧
      Parse.sequence (Grammar.entry (expressionWithin (tokens.length + 1))) .rightBrace .commaOrBrace
        inside = .ok (found, last) := by
  have depth : cursor.rest.length = tokens.length + 1 := by
    have same := congrArg List.length here.1
    rwa [Cursor.tokens, List.length_map] at same
  obtain ⟨_, _, ran, -⟩ := bind_ok.mp ran
  rw [Grammar.expression, depth] at ran
  -- The first operand is parsed before anything else, at every level.
  iterate 7 obtain ⟨_, _, ran, -⟩ := bind_ok.mp ran
  obtain ⟨signs, operand, signed, ran⟩ := bind_ok.mp ran
  have unsigned : Gives (Parse.extend Grammar.signStep []) (symbol .leftBrace :: tokens, start) []
      (symbol .leftBrace :: tokens, start) := by
    refine (Parse.Continues.extend Grammar.signStep [] _).done (.bind (.operator?_other ?_) (.pure _ _))
    rintro sign ⟨⟩
    rfl
  obtain ⟨rfl, there⟩ := unsigned.of_ok here signed
  iterate 3 obtain ⟨_, _, ran, -⟩ := bind_ok.mp ran
  obtain ⟨rest, slots⟩ := operand
  cases rest with
  | nil => cases there.1
  | cons first rest =>
    obtain ⟨token, _, _⟩ := first
    obtain ⟨same, left⟩ := List.cons.inj there.1
    obtain rfl : token = symbol .leftBrace := same
    obtain ⟨found, last, ran, -⟩ := bind_ok.mp ran
    exact ⟨{ rest, slots }, last, found, ⟨left, there.2⟩, ran⟩

/-- A map is read back only if its keys are readable. -/
theorem readable_of_parse (reads : ∀ entry ∈ entries, ∃ value, Reads entry.2.render.toList value)
    {found : Expr} {stop : Nat}
    (read : parseSegment 0 (Expr.map entries).render.toList 0 = .ok (found, stop)) :
    ∀ entry ∈ entries, IsReadableKey entry.1 := by
  cases entries with
  | nil => exact List.forall_mem_nil _
  | cons entry entries =>
    obtain ⟨⟨value, first⟩, others⟩ := List.forall_mem_cons.mp reads
    obtain ⟨spanned, ran, sentence⟩ := Grammar.parseSegment_ok_iff.mp read
    have all := Cuts.of_tokenize ran
    rw [Expr.toList_render_map] at all
    obtain ⟨rest, same, behind⟩ := (cuts_left _ .curly).left all
    obtain ⟨token, more, rfl, last, other, readable⟩ := entry_cut first (Expr.apart_closing entries) behind
    let cursor : Cursor := { rest := spanned, slots := 0 }
    have here : At (symbol .leftBrace :: token :: symbol .colon :: (value ++ more), 0) cursor := ⟨same, rfl⟩
    have whole : Grammar.whole cursor = .ok (found, { rest := [], slots := stop }) :=
      Grammar.whole_ok_iff.mpr ⟨rfl, sentence⟩
    obtain ⟨inside, ended, pairs, there, ran⟩ := entries_of_whole here whole
    obtain ⟨closed, middle, eaten, ran⟩ := bind_ok.mp ran
    have unclosed : Gives (Parse.eat .rightBrace) (token :: symbol .colon :: (value ++ more), 0) false
        (token :: symbol .colon :: (value ++ more), 0) :=
      .eat_other fun same => other _ (Option.some.inj same)
    obtain ⟨rfl, there⟩ := unclosed.of_ok there eaten
    obtain ⟨pair, between, item, ran⟩ := bind_ok.mp ran
    obtain ⟨pairs, _, ran, -⟩ := bind_ok.mp ran
    obtain ⟨known, stop, next⟩ := entry_taken first.means (ends_of_closing last)
      (by simp only [List.length_cons, List.length_append]; omega) there item
    have enough := between.length_tokens_le
    rw [next.1] at enough
    refine List.forall_mem_cons.mpr ⟨readable known, ?_⟩
    exact readable_of_iterate others last next (by simp only [List.length_cons, List.length_append]; omega)
      enough ran

/-- An entry with a readable key is a phrase with that key. -/
theorem entry_written {behind : List Char} {value : List Token} (reads : Reads e.render.toList value)
    (readable : IsReadableKey key) (apart : Apart behind) (start : Nat) :
    ∃ used found ending stop, Phrase (· ≠ .pipe) .entry used start (key, found) ending stop ∧
      Cuts Lexer.cut ((Expr.renderKey key).toList ++ ':' :: ' ' :: (e.render.toList ++ behind)) used
        behind := by
  obtain ⟨token, named, legible⟩ := readable.legible
  obtain ⟨found, stop, ending, phrase⟩ := reads.means start
  have colon : Cuts Lexer.cut (':' :: ' ' :: (e.render.toList ++ behind)) (symbol .colon :: value) behind :=
    (cuts_colon _).append (.blank rfl (reads.cuts.behind apart))
  refine ⟨_, found, ending, stop, phrase.entry named, ?_⟩
  exact (legible _ (.cons (by decide) (by decide))).cuts.append colon

/-- Entries with readable keys behind others. -/
theorem entries_written (reads : ∀ entry ∈ entries, ∃ value, Reads entry.2.render.toList value)
    (readable : ∀ entry ∈ entries, IsReadableKey entry.1) {former : List (String × Expr)} {ending : Ending}
    {middle : Nat} (before : Phrase (· ≠ .pipe) (.items .entry) tokens start former ending middle) :
    ∃ used values ending stop,
      Phrase (· ≠ .pipe) (.items .entry) (tokens ++ used) start (former ++ values) ending stop ∧
      Cuts Lexer.cut (Expr.closing entries) (used ++ [symbol .rightBrace]) [] ∧
      values.map Prod.fst = entries.map Prod.fst := by
  induction entries generalizing tokens former ending middle with
  | nil => exact ⟨[], [], ending, middle, by simpa using before, cuts_right [] .curly, rfl⟩
  | cons entry entries ih =>
    obtain ⟨⟨value, first⟩, others⟩ := List.forall_mem_cons.mp reads
    obtain ⟨here, rest⟩ := List.forall_mem_cons.mp readable
    obtain ⟨used, found, ending', stop, phrase, cuts⟩ :=
      entry_written first here (Expr.apart_closing entries) middle
    obtain ⟨more, values, last, final, all, behind, same⟩ := ih others rest (before.more phrase)
    refine ⟨symbol .comma :: (used ++ more), (entry.1, found) :: values, last, final, ?_, ?_, ?_⟩
    · simpa using all
    · have found := (cuts_comma _).append (cuts.append behind)
      simpa [Expr.closing] using found
    · rw [List.map_cons, List.map_cons, same]

/-- A map with readable keys is read back with these keys. -/
theorem parse_of_readable (reads : ∀ entry ∈ entries, ∃ value, Reads entry.2.render.toList value)
    (readable : ∀ entry ∈ entries, IsReadableKey entry.1) :
    ∃ found stop, parseSegment 0 (Expr.map entries).render.toList 0 = .ok (.map found, stop) ∧
      found.map Prod.fst = entries.map Prod.fst := by
  cases entries with
  | nil => exact ⟨[], 0, by rfl, rfl⟩
  | cons entry entries =>
    obtain ⟨⟨value, first⟩, others⟩ := List.forall_mem_cons.mp reads
    obtain ⟨here, rest⟩ := List.forall_mem_cons.mp readable
    obtain ⟨used, found, ending, middle, phrase, cuts⟩ :=
      entry_written first here (Expr.apart_closing entries) 0
    have one : Phrase (· ≠ .pipe) (.items .entry) used 0 [(entry.1, found)] ending middle := .one phrase
    obtain ⟨more, values, last, stop, all, behind, same⟩ := entries_written others rest one
    have sentence := (Phrase.operand (Phrase.filled .curly all).map).nested
    have text := (cuts_left _ .curly).append (cuts.append behind)
    obtain ⟨spanned, ran, tokens⟩ := text.tokenize 0
    refine ⟨(entry.1, found) :: values, stop, Grammar.parseSegment_ok_iff.mpr ⟨spanned, ?_, ?_⟩, ?_⟩
    · rw [Expr.toList_render_map]
      exact ran
    · rw [List.append_assoc] at sentence
      exact tokens ▸ ⟨.closed, sentence⟩
    · rw [List.map_cons, List.map_cons, same]

end Whole

/-- What is written in quotes is read back as far as quotes keep it. A text is one token just when quotes
keep all its characters. A map of values that can be read is read back with its keys just when all its keys
are readable. -/
theorem quotes_read_back (s location : String) (entries : List (String × Expr))
    (accepted : ∀ entry ∈ entries, ∃ source, parse .binding entry.2.render location = .ok source) :
    (tokenize (Expr.literal (.str s)).render location =
        .ok [{ token := .str s, start := 0, stop := Lexer.byteSize (Expr.literal (.str s)).render.toList }] ↔
      IsKeptText s) ∧
    ((∃ source found, parse .binding (Expr.map entries).render location = .ok source ∧
        source.expr = .map found ∧ found.map Prod.fst = entries.map Prod.fst) ↔
      ∀ entry ∈ entries, IsReadableKey entry.1) := by
  have reads (entry : String × Expr) (member : entry ∈ entries) :
      ∃ value, Reads entry.2.render.toList value := by
    obtain ⟨source, read⟩ := accepted entry member
    exact Reads.of_parse read
  refine ⟨tokenize_quote_iff, ?_, fun readable => ?_⟩
  · rintro ⟨source, found, read, -, -⟩
    exact readable_of_parse reads (parse_binding_ok_iff.mp read).1
  · obtain ⟨found, stop, read, same⟩ := parse_of_readable reads readable
    exact ⟨{ expr := .map found, text := (Expr.map entries).render, location, slots := stop }, found,
      parse_binding_ok_iff.mpr ⟨read, rfl, rfl⟩, rfl, same⟩

/-- A text with an escape and an accent, a map with a key in quotes and a key without. -/
theorem quotes_read_back_both :
    let entries := [("a \t\"é\"", Expr.name "x"), ("b", .literal .null)]
    (∀ entry ∈ entries, ∃ source, parse .binding entry.2.render "view" = .ok source) ∧
      tokenize (Expr.literal (.str "a \t\"é\"")).render "view" =
        .ok [{ token := .str "a \t\"é\"", start := 0, stop := 12 }] ∧
      ∃ source found, parse .binding (Expr.map entries).render "view" = .ok source ∧
        source.expr = .map found ∧ found.map Prod.fst = ["a \t\"é\"", "b"] := by
  intro entries
  have accepted : ∀ entry ∈ entries, ∃ source, parse .binding entry.2.render "view" = .ok source := by
    simp only [entries, List.forall_mem_cons]
    exact ⟨⟨_, rfl⟩, ⟨_, rfl⟩, List.forall_mem_nil _⟩
  have kept : IsKeptText "a \t\"é\"" := by decide +kernel
  have readable : ∀ entry ∈ entries, IsReadableKey entry.1 := by
    simp only [entries, List.forall_mem_cons]
    exact ⟨.inr ⟨by decide, kept⟩, by decide, List.forall_mem_nil _⟩
  have size : Lexer.byteSize (Expr.literal (.str "a \t\"é\"")).render.toList = 12 := by decide +kernel
  obtain ⟨quoted, mapped⟩ := quotes_read_back "a \t\"é\"" "view" entries accepted
  exact ⟨accepted, size ▸ quoted.mpr kept, mapped.mpr readable⟩

/-- A hidden character is written by its number, which is no escape; and a word with a meaning is written
without quotes, which is no key. -/
theorem quotes_lose :
    tokenize (Expr.literal (.str "\u200b")).render "view" = .error
      { fault := .invalidToken "\"\\u\x7b200b\x7d\"" 0, input := "\"\\u\x7b200b\x7d\"", location := "view" } ∧
    parse .binding (Expr.map [("true", .literal .null)]).render "view" = .error
      { fault := .unexpectedToken (.keyword .true) .mapKey 1
        input := "\x7btrue: null\x7d"
        location := "view" } := by
  have quoted : (Expr.literal (.str "\u200b")).render = "\"\\u\x7b200b\x7d\"" := by decide +kernel
  rw [quoted]
  exact ⟨by cbv, by cbv⟩

end ChangeWatch
