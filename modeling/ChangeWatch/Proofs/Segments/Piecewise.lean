import ChangeWatch.Proofs.Segments.Division
import ChangeWatch.Proofs.Segments.Relocation
import ChangeWatch.Proofs.Unparsing.Accepted

/-!
Reading a text piece by piece. What stands between braces is read as it would be on its own: the tree is the
same but for the slots of its pipes, which go on behind the pipes of the pieces before it, and the first
fault is the same but for its column.
-/
namespace ChangeWatch

theorem Lexer.byteSize_append (first last : List Char) :
    byteSize (first ++ last) = byteSize first + byteSize last := by
  induction first with
  | nil => exact (Nat.zero_add _).symm
  | cons c first ih => rw [List.cons_append, byteSize, byteSize, ih, Nat.add_assoc]

/-- The number of pipes in some trees. -/
def pipeCount (sources : List Source) : Nat :=
  (sources.map fun source => source.expr.pipeSlots.length).sum

namespace Interpolation

/-- The body of a piece as it is read on its own. -/
def Piece.read (location : String) (piece : Piece) : Except ParseError Source :=
  parse .binding (String.ofList piece.body) location

/-- The trees of some sources, each with its pipes behind those of the ones before. -/
def raised : Nat → List Source → List Expr
  | _, [] => []
  | slots, source :: sources =>
    source.expr.raise slots :: raised (slots + source.expr.pipeSlots.length) sources

/-- Strings with bodies between them. -/
def weave : List String → List String → String
  | string :: strings, body :: bodies =>
    string ++ "\x7b\x7b" ++ body ++ "\x7d\x7d" ++ weave strings bodies
  | strings, _ => String.join strings

/-- The place of the body of a piece behind others. -/
def bodyOffset (before : List Piece) (piece : Piece) : Nat :=
  Lexer.byteSize (before.flatMap Piece.letters ++ piece.string) + 2

variable {text string after body rest : List Char} {pieces before : List Piece} {piece : Piece}
  {tail : Tail} {location : String} {source : Source} {sources : List Source}

theorem length_raised (slots : Nat) : (raised slots sources).length = sources.length := by
  induction sources generalizing slots with
  | nil => rfl
  | cons source sources ih => rw [raised, List.length_cons, ih, List.length_cons]

theorem getElem?_raised (slots index : Nat) : (raised slots sources)[index]? =
    sources[index]?.map fun source => source.expr.raise (slots + pipeCount (sources.take index)) := by
  induction sources generalizing slots index with
  | nil => rfl
  | cons source sources ih =>
    cases index with
    | zero => rfl
    | succ index =>
      simp only [raised, List.getElem?_cons_succ, ih, List.take_succ_cons, pipeCount, List.map_cons,
        List.sum_cons, Nat.add_assoc]

theorem Piece.byteSize_letters (piece : Piece) :
    Lexer.byteSize piece.letters = Lexer.byteSize piece.string + 4 + Lexer.byteSize piece.body := by
  have brace : '\x7b'.utf8Size = 1 ∧ '\x7d'.utf8Size = 1 := by decide
  simp only [letters, Lexer.byteSize_append, Lexer.byteSize, brace.1, brace.2]
  omega

theorem Piece.read_ok (read : piece.read location = .ok source) :
    parseSegment 0 piece.body 0 = .ok (source.expr, source.expr.pipeSlots.length) := by
  obtain ⟨found, -, -⟩ := parse_binding_ok_iff.mp read
  rw [String.toList_ofList] at found
  have spans := parseSegment_spans found
  rw [found, spans.2, Nat.zero_add]

/-- A piece is read as it is on its own, and then the rest. -/
theorem pieces_piece (piece : Piece) (opening : FirstPair '\x7b' text piece.string after)
    (closing : FirstPair '\x7d' after piece.body rest) (steps offset slots : Nat) :
    Interpolation.pieces (steps + 1) offset text slots = (match parseSegment 0 piece.body 0 with
      | .error fault => .error (fault.moved (offset + bodyOffset [] piece))
      | .ok (e, count) => (Interpolation.pieces steps (offset + Lexer.byteSize piece.letters) rest
          (slots + count)).map fun others => { others with
            strings := String.ofList piece.string :: others.strings
            expressions := e.raise slots :: others.expressions }) := by
  have place : offset + Lexer.byteSize piece.string + 2 = offset + bodyOffset [] piece := by
    rw [Nat.add_assoc]
    rfl
  have next : offset + Lexer.byteSize piece.string + 4 + Lexer.byteSize piece.body =
      offset + Lexer.byteSize piece.letters := by
    rw [piece.byteSize_letters]
    omega
  simp only [Interpolation.pieces, opening.splitPair, closing.splitPair,
    parseSegment_moved _ piece.body slots, place, next]
  cases parseSegment 0 piece.body 0 with
  | error fault => rfl
  | ok found =>
    simp only [Except.map, Except.mapError, Bind.bind, Except.bind]
    cases Interpolation.pieces steps (offset + Lexer.byteSize piece.letters) rest (slots + found.2) <;> rfl

/-- The end of a text behind its pieces. -/
def Tail.read (offset slots : Nat) : Tail → Except Fault Pieces
  | plain string => .ok { strings := [String.ofList string], expressions := [], slots }
  | unclosed string _ => .error (.unterminated (offset + Lexer.byteSize string))

/-- Where every body is accepted, all is put together, and the end decides. -/
theorem pieces_read (divides : Divides text pieces tail)
    (read : List.Forall₂ (fun piece source => piece.read location = .ok source) pieces sources)
    {steps : Nat} (enough : text.length ≤ steps) (offset slots : Nat) :
    Interpolation.pieces steps offset text slots =
      (tail.read (offset + Lexer.byteSize (pieces.flatMap Piece.letters))
        (slots + pipeCount sources)).map fun ended => { ended with
          strings := pieces.map (fun piece => String.ofList piece.string) ++ ended.strings
          expressions := raised slots sources ++ ended.expressions } := by
  induction divides generalizing sources steps offset slots with
  | plain none =>
    cases read
    cases steps with
    | zero => rfl
    | succ steps =>
      rw [Interpolation.pieces, splitPair_eq_none_iff.mpr none]
      rfl
  | unclosed opening none =>
    cases read
    cases steps with
    | zero =>
      rw [opening.1] at enough
      simp at enough
    | succ steps =>
      rw [Interpolation.pieces, opening.splitPair]
      simp only [splitPair_eq_none_iff.mpr none]
      rfl
  | @piece text string after body rest pieces tail opening closing _ ih =>
    cases read with
    | @cons _ source _ sources here others =>
      have fewer : rest.length + 1 ≤ steps := by
        rw [opening.1, closing.1] at enough
        simp only [List.length_append, List.length_cons] at enough
        omega
      cases steps with
      | zero => cases fewer
      | succ steps =>
        have found := Piece.read_ok here
        rw [pieces_piece { string, body } opening closing, found]
        simp only
        rw [ih others (Nat.le_of_succ_le_succ fewer)]
        simp only [List.flatMap_cons, Lexer.byteSize_append, pipeCount, List.map_cons, List.sum_cons, raised,
          Nat.add_assoc]
        cases tail <;> rfl

/-- The first body that is refused decides, wherever the text ends. -/
theorem pieces_refused {fault : Fault} (refused : parseSegment 0 piece.body 0 = .error fault)
    (divides : Divides text (before ++ piece :: pieces) tail)
    (read : ∀ earlier ∈ before, ∃ source, earlier.read location = .ok source) {steps : Nat}
    (enough : text.length ≤ steps) (offset slots : Nat) :
    Interpolation.pieces steps offset text slots =
      .error (fault.moved (offset + bodyOffset before piece)) := by
  induction before generalizing text steps offset slots with
  | nil =>
    obtain ⟨after, rest, opening, closing, -, less⟩ := divides.behind
    cases steps with
    | zero => omega
    | succ steps => rw [pieces_piece piece opening closing, refused]
  | cons first before ih =>
    obtain ⟨⟨source, here⟩, others⟩ := List.forall_mem_cons.mp read
    obtain ⟨after, rest, opening, closing, behind, less⟩ := divides.behind
    cases steps with
    | zero => omega
    | succ steps =>
      rw [pieces_piece first opening closing, Piece.read_ok here]
      simp only
      rw [ih behind others (by omega)]
      simp only [Except.map, bodyOffset, List.flatMap_cons, List.append_assoc, Lexer.byteSize_append,
        Nat.add_assoc]

/-- All bodies are accepted, or there is a first one that is refused. -/
theorem accepted_or_refused (location : String) (pieces : List Piece) :
    (∃ sources, List.Forall₂ (fun piece source => piece.read location = .ok source) pieces sources) ∨
      ∃ before piece after error, pieces = before ++ piece :: after ∧
        (∀ earlier ∈ before, ∃ source, earlier.read location = .ok source) ∧
        piece.read location = .error error := by
  induction pieces with
  | nil => exact .inl ⟨[], .nil⟩
  | cons first pieces ih =>
    cases read : first.read location with
    | error error => exact .inr ⟨[], first, pieces, error, rfl, List.forall_mem_nil _, read⟩
    | ok source =>
      obtain ⟨sources, accepted⟩ | ⟨before, piece, after, error, rfl, accepted, refused⟩ := ih
      · exact .inl ⟨source :: sources, .cons read accepted⟩
      · refine .inr ⟨first :: before, piece, after, error, rfl, ?_, refused⟩
        exact List.forall_mem_cons.mpr ⟨⟨source, read⟩, accepted⟩

/-- As many steps as there are letters are enough: the loop ends by itself. -/
theorem pieces_enough {steps : Nat} (enough : text.length ≤ steps) (offset slots : Nat) :
    Interpolation.pieces steps offset text slots = Interpolation.pieces text.length offset text slots := by
  obtain ⟨pieces, tail, divides⟩ := Divides.exist text
  obtain ⟨sources, read⟩ | ⟨before, piece, after, error, rfl, read, refused⟩ :=
    accepted_or_refused "" pieces
  · rw [pieces_read divides read enough, pieces_read divides read (Nat.le_refl _)]
  · obtain ⟨fault, -⟩ := parse_binding_error_iff.mp refused
    rw [String.toList_ofList] at fault
    rw [pieces_refused fault divides read enough, pieces_refused fault divides read (Nat.le_refl _)]

/-- Strings and expressions that a text is made of: the strings and the bodies give the text, and the
expressions are the trees of the bodies, each behind the pipes of the ones before it. -/
structure Woven (text : String) (bodies : List String) (sources : List Source) (strings : List String)
    (expressions : List Expr) : Prop where
  letters : weave strings bodies = text
  more : strings.length = expressions.length + 1
  free : ∀ string ∈ strings, ¬ Doubled '\x7b' string.toList
  same : expressions.length = bodies.length
  trees : ∀ index : Nat, expressions[index]? =
    sources[index]?.map fun source => source.expr.raise (pipeCount (sources.take index))

theorem weave_letters (pieces : List Piece) (last : List Char) :
    (weave (pieces.map (fun piece => String.ofList piece.string) ++ [String.ofList last])
      (pieces.map fun piece => String.ofList piece.body)).toList =
        pieces.flatMap Piece.letters ++ last := by
  induction pieces with
  | nil => simp [weave, String.join]
  | cons piece pieces ih => simp [weave, Piece.letters, ih]

theorem Divides.free {last : List Char} (divides : Divides text pieces (.plain last)) :
    ∀ string ∈ pieces.map (fun piece => String.ofList piece.string) ++ [String.ofList last],
      ¬ Doubled '\x7b' string.toList := by
  generalize ends : Tail.plain last = tail at divides
  induction divides with
  | plain none =>
    cases ends
    simpa using none
  | unclosed => cases ends
  | piece opening _ _ ih =>
    refine List.forall_mem_cons.mpr ⟨?_, ih ends⟩
    rw [String.toList_ofList]
    exact opening.not_doubled

theorem parse_eq (text location : String) : parse .interpolation text location =
    match Interpolation.pieces text.toList.length 0 text.toList 0 with
    | .ok pieces => .ok
      { expr := .interpolation pieces.strings pieces.expressions, text, location, slots := pieces.slots }
    | .error fault => .error { fault, input := text, location } := by
  simp only [parse, parseInterpolation, ← String.length_toList]
  cases Interpolation.pieces text.toList.length 0 text.toList 0 <;> rfl

section Whole

variable {text : String} {pieces before : List Piece} {piece : Piece} {last : List Char}

theorem Woven.of_divides (divides : Divides text.toList pieces (.plain last))
    (read : List.Forall₂ (fun piece source => piece.read location = .ok source) pieces sources) :
    Woven text (pieces.map fun piece => String.ofList piece.body) sources
      (pieces.map (fun piece => String.ofList piece.string) ++ [String.ofList last])
      (raised 0 sources) where
  letters := String.toList_inj.mp ((weave_letters pieces last).trans divides.letters)
  more := by simp [length_raised, read.length_eq]
  free := divides.free
  same := by simp [length_raised, read.length_eq]
  trees index := by rw [getElem?_raised, Nat.zero_add]

theorem parse_accepted (divides : Divides text.toList pieces (.plain last))
    (read : List.Forall₂ (fun piece source => piece.read location = .ok source) pieces sources) :
    parse .interpolation text location = .ok
      { expr := .interpolation
          (pieces.map (fun piece => String.ofList piece.string) ++ [String.ofList last]) (raised 0 sources)
        text
        location
        slots := pipeCount sources } := by
  rw [parse_eq, pieces_read divides read (Nat.le_refl _)]
  simp [Tail.read, Except.map]

theorem parse_unclosed {string rest : List Char}
    (divides : Divides text.toList pieces (.unclosed string rest))
    (read : List.Forall₂ (fun piece source => piece.read location = .ok source) pieces sources) :
    parse .interpolation text location = .error
      { fault := .unterminated (Lexer.byteSize (pieces.flatMap Piece.letters ++ string))
        input := text
        location } := by
  rw [parse_eq, pieces_read divides read (Nat.le_refl _), Nat.zero_add, Lexer.byteSize_append]
  rfl

theorem parse_refused {error : ParseError} {after : List Piece}
    (divides : Divides text.toList (before ++ piece :: after) tail)
    (read : ∀ earlier ∈ before, ∃ source, earlier.read location = .ok source)
    (refused : piece.read location = .error error) :
    parse .interpolation text location =
      .error { fault := error.fault.moved (bodyOffset before piece), input := text, location } := by
  obtain ⟨fault, -⟩ := parse_binding_error_iff.mp refused
  rw [String.toList_ofList] at fault
  rw [parse_eq, pieces_refused fault divides read (Nat.le_refl _), Nat.zero_add]

end Whole

theorem forall_accepted
    (read : List.Forall₂ (fun piece source => piece.read location = .ok source) pieces sources) :
    ∀ piece ∈ pieces, ∃ source, piece.read location = .ok source := by
  induction read with
  | nil => exact List.forall_mem_nil _
  | cons here _ ih => exact List.forall_mem_cons.mpr ⟨⟨_, here⟩, ih⟩

theorem exists_sources (accepted : ∀ piece ∈ pieces, ∃ source, piece.read location = .ok source) :
    ∃ sources, List.Forall₂ (fun piece source => piece.read location = .ok source) pieces sources := by
  obtain read | ⟨before, piece, after, error, rfl, -, refused⟩ := accepted_or_refused location pieces
  · exact read
  · obtain ⟨source, found⟩ := accepted piece (by simp)
    rw [refused] at found
    cases found

/-- An accepted text has all its braces closed and all its bodies accepted. -/
theorem all_read {text : String} (divides : Divides text.toList pieces tail)
    (accepted : parse .interpolation text location = .ok source) : ∃ last sources, tail = .plain last ∧
      List.Forall₂ (fun piece source => piece.read location = .ok source) pieces sources := by
  obtain ⟨sources, read⟩ | ⟨before, piece, after, error, rfl, read, refused⟩ :=
    accepted_or_refused location pieces
  · cases tail with
    | plain last => exact ⟨last, sources, rfl, read⟩
    | unclosed string rest =>
      rw [parse_unclosed divides read] at accepted
      cases accepted
  · rw [parse_refused divides read refused] at accepted
    cases accepted

/-- A text is read piece by piece. There is one way to cut it at double braces. It is accepted when every
opening pair is closed and every body is accepted on its own; then it is woven from strings and the trees of
the bodies. Otherwise the first body that is refused decides, or the opening pair that is left. The loop ends
by itself within as many steps as there are letters. -/
theorem parse_interpolation_piecewise (text location : String) : ∃ pieces tail,
    (Divides text.toList pieces tail ∧
      ∀ others ending, Divides text.toList others ending → others = pieces ∧ ending = tail) ∧
    ((∃ source, parse .interpolation text location = .ok source) ↔
      (∃ last, tail = .plain last) ∧ ∀ piece ∈ pieces, ∃ source, piece.read location = .ok source) ∧
    (∀ source, parse .interpolation text location = .ok source → ∃ strings expressions sources,
      source = { expr := .interpolation strings expressions, text, location, slots := pipeCount sources } ∧
      List.Forall₂ (fun piece source => piece.read location = .ok source) pieces sources ∧
      Woven text (pieces.map fun piece => String.ofList piece.body) sources strings expressions) ∧
    (∀ before piece after error, pieces = before ++ piece :: after →
      (∀ earlier ∈ before, ∃ source, earlier.read location = .ok source) →
      piece.read location = .error error →
      let fault := error.fault.moved (bodyOffset before piece)
      parse .interpolation text location = .error { fault, input := text, location } ∧
        fault.column? = error.fault.column?.map (bodyOffset before piece + ·)) ∧
    (∀ string rest, tail = .unclosed string rest →
      (∀ piece ∈ pieces, ∃ source, piece.read location = .ok source) →
      parse .interpolation text location = .error
        { fault := .unterminated (Lexer.byteSize (pieces.flatMap Piece.letters ++ string))
          input := text
          location }) ∧
    ∀ steps, text.length ≤ steps →
      Interpolation.pieces steps 0 text.toList 0 = Interpolation.pieces text.length 0 text.toList 0 := by
  obtain ⟨pieces, tail, divides⟩ := Divides.exist text.toList
  refine ⟨pieces, tail, ⟨divides, fun _ _ => divides.unique⟩, ⟨?_, ?_⟩, ?_, ?_, ?_, ?_⟩
  · rintro ⟨source, accepted⟩
    obtain ⟨last, sources, same, read⟩ := all_read divides accepted
    exact ⟨⟨last, same⟩, forall_accepted read⟩
  · rintro ⟨⟨last, rfl⟩, accepted⟩
    obtain ⟨sources, read⟩ := exists_sources accepted
    exact ⟨_, parse_accepted divides read⟩
  · intro source accepted
    obtain ⟨last, sources, rfl, read⟩ := all_read divides accepted
    rw [parse_accepted divides read] at accepted
    exact ⟨_, _, sources, (Except.ok.inj accepted).symm, read, .of_divides divides read⟩
  · rintro before piece after error rfl read refused
    exact ⟨parse_refused divides read refused, error.fault.column?_moved _⟩
  · rintro string rest rfl accepted
    obtain ⟨sources, read⟩ := exists_sources accepted
    exact parse_unclosed divides read
  · intro steps enough
    rw [← String.length_toList] at enough ⊢
    exact pieces_enough enough 0 0

end Interpolation
end ChangeWatch
