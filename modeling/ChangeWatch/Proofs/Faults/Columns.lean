import ChangeWatch.Proofs.Faults.Blames
import ChangeWatch.Proofs.Lexemes.Tiling

/-!
Where faults point to. A text that is refused is refused for letters that are no token, for a token that may
not stand where it does, for its end, for a part without tokens, or for an opening pair that nothing closes;
and the column is the place of these letters, of this token, of this part and of this pair.
-/
namespace ChangeWatch

namespace Lexer

variable {c quote : Char} {s letters : List Char} {steps offset : Nat} {fault : Fault}

/-- A text in quotes that does not end is taken from its start on. -/
theorem literalBody_open (s : List Char) : ∀ {body : List Char},
    literalBody quote s = (body, none) → ∃ after, s = body ++ after := by
  fun_induction literalBody quote s with
  | case1 | case2 | case5 =>
    rintro _ ⟨⟩
    exact ⟨_, rfl⟩
  | case3 d s line body behind found ih =>
    rintro _ ⟨⟩
    obtain ⟨after, rfl⟩ := ih found
    exact ⟨after, rfl⟩
  | case4 s => rintro _ ⟨⟩
  | case6 c s _ other plain body behind found ih =>
    rintro _ ⟨⟩
    obtain ⟨after, rfl⟩ := ih found
    exact ⟨after, rfl⟩

theorem literal_invalid (refused : literal quote s = .invalid letters) :
    ∃ more after, letters = quote :: more ∧ s = more ++ after := by
  unfold literal at refused
  split at refused
  · rename_i body found
    cases refused
    obtain ⟨after, rfl⟩ := literalBody_open s found
    exact ⟨body, after, rfl, rfl⟩
  · rename_i body rest found
    split at refused <;> cases refused
    obtain ⟨rfl, -⟩ := literalBody_parts s found
    exact ⟨body ++ [quote], rest, rfl, by rw [List.append_assoc, List.singleton_append]⟩

theorem number_valid (whole s : List Char) : number whole s ≠ .invalid letters := by
  unfold number
  simp only
  split <;> split <;> split <;> nofun

theorem symbol_invalid (refused : symbol c s = .invalid letters) : letters = [c] := by
  unfold symbol at refused
  split at refused
  case h_28 => exact (Cut.invalid.inj refused).symm
  all_goals cases refused

/-- Letters that are no token stand where a token would. -/
theorem cut_invalid (refused : cut c s = .invalid letters) :
    ∃ more after, letters = c :: more ∧ s = more ++ after := by
  unfold cut at refused
  split at refused
  · cases refused
  split at refused
  · exact absurd refused (number_valid _ _)
  split at refused
  · exact literal_invalid refused
  split at refused
  · exact absurd refused (number_valid _ _)
  · exact ⟨[], s, symbol_invalid refused, rfl⟩

theorem cutAll_invalid (refused : cutAll steps offset s = .error fault) :
    ∃ before letters after, s = before ++ (letters ++ after) ∧ letters ≠ [] ∧
      fault = .invalidToken (String.ofList letters) (offset + byteSize before) := by
  induction steps generalizing offset s with
  | zero => cases s <;> cases refused
  | succ steps ih =>
    cases s with
    | nil => cases refused
    | cons c s =>
      rw [cutAll] at refused
      split at refused
      · obtain ⟨before, letters, after, rfl, some, rfl⟩ := ih refused
        exact ⟨c :: before, letters, after, rfl, some, by rw [byteSize, Nat.add_assoc]⟩
      · split at refused
        · rename_i letters invalid
          cases refused
          obtain ⟨more, after, rfl, rfl⟩ := cut_invalid invalid
          exact ⟨[], c :: more, after, rfl, List.cons_ne_nil c more, rfl⟩
        · rename_i token taken rest cut
          simp only at refused
          split at refused
          · cases refused
          · rename_i behind failed
            cases refused
            obtain ⟨more, rfl, rfl, -⟩ := cut_means cut
            obtain ⟨before, letters, after, rfl, some, rfl⟩ := ih failed
            refine ⟨c :: more ++ before, letters, after, by simp, some, ?_⟩
            rw [byteSize_append, Nat.add_assoc]

end Lexer

/-- What a fault says about a part of a text that starts at an offset. -/
inductive Fault.Points (offset : Nat) (part : List Char) : Fault → Prop where
  | invalid {before letters after : List Char} (split : part = before ++ (letters ++ after))
      (some : letters ≠ []) :
      Points offset part (.invalidToken (String.ofList letters) (offset + Lexer.byteSize before))
  | token {tokens : List Spanned} {token : Spanned} (read : tokenizeFrom offset part = .ok tokens)
      (member : token ∈ tokens) (expected : Expected) :
      Points offset part (.unexpectedToken token.token expected token.start)
  | ended (expected : Expected) : Points offset part (.unexpectedEnd expected)
  | blank (read : tokenizeFrom offset part = .ok []) : Points offset part (.blank offset)

theorem parseSegment_points {offset slots : Nat} {part : List Char} {fault : Fault}
    (refused : parseSegment offset part slots = .error fault) : fault.Points offset part := by
  unfold parseSegment at refused
  cases read : tokenizeFrom offset part with
  | error invalid =>
    rw [read] at refused
    cases refused
    obtain ⟨before, letters, after, split, some, rfl⟩ := Lexer.cutAll_invalid read
    exact .invalid split some
  | ok tokens =>
    cases tokens with
    | nil =>
      rw [read] at refused
      cases refused
      exact .blank read
    | cons first others =>
      have ended := Grammar.whole_blames { rest := first :: others, slots } (List.suffix_refl _)
      simp only [read, Bind.bind, Except.bind, List.isEmpty_cons, Bool.false_eq_true, if_false,
        StateT.run] at refused
      generalize Grammar.whole { rest := first :: others, slots } = found at ended refused
      cases ended with
      | left => cases refused
      | failed blamed =>
        cases refused
        cases blamed with
        | ended expected => exact .ended expected
        | token member expected => exact .token read member expected

namespace Interpolation

variable {text location : String} {offset : Nat} {part : List Char} {error : ParseError}

/-- A part of a text that is read as an expression, and where it starts: the whole text, or what stands
between braces. -/
inductive Part (text : String) : Reading → Nat → List Char → Prop where
  | whole : Part text .binding 0 text.toList
  | body {before after : List Piece} {piece : Piece} {tail : Tail}
      (divides : Divides text.toList (before ++ piece :: after) tail) :
      Part text .interpolation (bodyOffset before piece) piece.body

theorem Part.between {reading : Reading} (here : Part text reading offset part) :
    ∃ before after, Between text offset (offset + Lexer.byteSize part) before part after := by
  cases here with
  | whole => exact ⟨[], [], by rw [List.append_nil, List.nil_append], rfl, rfl⟩
  | @body before after piece tail divides =>
    refine ⟨before.flatMap Piece.letters ++ piece.string ++ ['\x7b', '\x7b'],
      '\x7d' :: '\x7d' :: (after.flatMap Piece.letters ++ tail.letters), ?_, ?_, rfl⟩
    · rw [← divides.letters]
      simp [Piece.letters]
    · rw [bodyOffset, Lexer.byteSize_append _ ['\x7b', '\x7b']]
      rfl

theorem Divides.not_closed {letters string rest : List Char} {pieces : List Piece}
    (divides : Divides letters pieces (.unclosed string rest)) : ¬ Doubled '\x7d' rest := by
  generalize ends : Tail.unclosed string rest = tail at divides
  induction divides with
  | plain => cases ends
  | unclosed _ none =>
    cases ends
    exact none
  | piece _ _ _ ih => exact ih ends

/-- A text is refused for one of its parts, or for an opening pair that nothing closes. -/
theorem parse_refused_cases {reading : Reading} (refused : parse reading text location = .error error) :
    error.input = text ∧ error.location = location ∧
      ((∃ offset part, Part text reading offset part ∧ parseSegment offset part 0 = .error error.fault) ∨
        ∃ before after, text.toList = before ++ '\x7b' :: '\x7b' :: after ∧ ¬ Doubled '\x7d' after ∧
          error.fault = .unterminated (Lexer.byteSize before)) := by
  cases reading with
  | binding =>
    obtain ⟨failed, input, location⟩ := parse_binding_error_iff.mp refused
    exact ⟨input, location, .inl ⟨0, text.toList, .whole, failed⟩⟩
  | interpolation =>
    obtain ⟨pieces, tail, divides⟩ := Divides.exist text.toList
    obtain ⟨sources, read⟩ | ⟨before, piece, after, error', rfl, read, failed⟩ :=
      accepted_or_refused location pieces
    · cases tail with
      | plain last =>
        rw [parse_accepted divides read] at refused
        cases refused
      | unclosed string rest =>
        rw [parse_unclosed divides read] at refused
        cases refused
        refine ⟨rfl, rfl, .inr ⟨pieces.flatMap Piece.letters ++ string, rest, ?_, ?_, rfl⟩⟩
        · rw [← divides.letters, List.append_assoc]
          rfl
        · exact divides.not_closed
    · rw [parse_refused divides read failed] at refused
      cases refused
      obtain ⟨fault, -⟩ := parse_binding_error_iff.mp failed
      rw [String.toList_ofList] at fault
      refine ⟨rfl, rfl, .inl ⟨bodyOffset before piece, piece.body, .body divides, ?_⟩⟩
      rw [parseSegment_moved, fault]
      rfl

/-- What an error says is true of the text it is about: the letters, the token and the opening pair that it
names stand at its column, and nothing closes the pair. -/
def Holds (reading : Reading) (text : String) : Fault → Prop
  | .invalidToken letters column => letters ≠ "" ∧ ∃ before after,
    Between text column (column + letters.utf8ByteSize) before letters.toList after
  | .unexpectedToken found _ column => ∃ offset part tokens token, Part text reading offset part ∧
    tokenizeFrom offset part = .ok tokens ∧ token ∈ tokens ∧ token.start = column ∧ token.token = found
  | .unexpectedEnd _ => True
  | .unterminated column => ∃ before after, column = Lexer.byteSize before ∧
    text.toList = before ++ '\x7b' :: '\x7b' :: after ∧ ¬ Doubled '\x7d' after
  | .blank column => ∃ part, Part text reading column part ∧ ∀ c ∈ part, c ∈ [' ', '\t', '\r', '\n']

theorem Part.holds {reading : Reading} {fault : Fault} (here : Part text reading offset part)
    (points : fault.Points offset part) : Holds reading text fault := by
  obtain ⟨front, behind, between⟩ := here.between
  cases points with
  | @invalid before letters after split some =>
    have place := between.inside split
    refine ⟨fun none => some (String.ofList_eq_empty_iff.mp none), front ++ before, after ++ behind, ?_⟩
    rw [Lexer.utf8ByteSize_ofList, String.toList_ofList]
    exact place
  | @token tokens token read member =>
    exact ⟨offset, part, tokens, token, here, read, member, rfl, rfl⟩
  | ended => trivial
  | blank read =>
    refine ⟨part, here, fun c member => ?_⟩
    obtain ⟨before, after, split⟩ := List.append_of_mem member
    have blank := (tokenizeFrom_tiling read).blank_of_uncovered split (List.forall_mem_nil _)
    simpa [Lexer.isBlank, or_assoc] using blank

theorem Part.column {reading : Reading} {fault : Fault} (here : Part text reading offset part)
    (points : fault.Points offset part) {column : Nat} (known : fault.column? = some column) :
    String.Pos.Raw.IsValid text ⟨column⟩ := by
  obtain ⟨front, behind, between⟩ := here.between
  cases points with
  | invalid split =>
    cases known
    exact (between.inside split).start_valid
  | token read member =>
    cases known
    obtain ⟨before, letters, after, split, start, -⟩ := (tokenizeFrom_tiling read).letters member
    rw [start]
    exact (between.inside split).start_valid
  | ended => cases known
  | blank =>
    cases known
    exact between.start_valid

/-- Faults point into the text that is refused: an error is about this text, in this place; it has a column
unless the text has ended too early; and what it names stands at this column. -/
theorem parse_error_points {reading : Reading} (refused : parse reading text location = .error error) :
    error.input = text ∧ error.location = location ∧
      (error.fault.column? = none ↔ ∃ expected, error.fault = .unexpectedEnd expected) ∧
      (∀ column, error.fault.column? = some column →
        column ≤ text.utf8ByteSize ∧ String.Pos.Raw.IsValid text ⟨column⟩) ∧
      Holds reading text error.fault := by
  obtain ⟨input, location, failed⟩ := parse_refused_cases refused
  have columned : error.fault.column? = none ↔ ∃ expected, error.fault = .unexpectedEnd expected := by
    cases error.fault <;> simp [Fault.column?]
  refine ⟨input, location, columned, fun column known => ?_, ?_⟩
  · have valid : String.Pos.Raw.IsValid text ⟨column⟩ := by
      rcases failed with ⟨offset, part, here, failed⟩ | ⟨before, after, split, -, same⟩
      · exact here.column (parseSegment_points failed) known
      · rw [same] at known
        cases known
        exact isValid_byteSize split
    exact ⟨valid.le_rawEndPos, valid⟩
  · rcases failed with ⟨offset, part, here, failed⟩ | ⟨before, after, split, none, same⟩
    · exact here.holds (parseSegment_points failed)
    · rw [same]
      exact ⟨before, after, rfl, split, none⟩

namespace Samples

/-- Two names in a row, behind a letter of two bytes. -/
def doubled : ParseError where
  fault := .unexpectedToken (.ident "b") .endOfExpression 7
  input := "é\x7b\x7b a b \x7d\x7d"
  location := "view"

end Samples

open Samples in
theorem parse_error_points_doubled :
    parse .interpolation doubled.input "view" = .error doubled ∧
      7 ≤ doubled.input.utf8ByteSize ∧ String.Pos.Raw.IsValid doubled.input ⟨7⟩ ∧
      Holds .interpolation doubled.input doubled.fault := by
  have refused : parse .interpolation doubled.input "view" = .error doubled := by cbv
  obtain ⟨-, -, -, column, holds⟩ := parse_error_points refused
  obtain ⟨within, valid⟩ := column 7 rfl
  exact ⟨refused, within, valid, holds⟩

end Interpolation
end ChangeWatch
