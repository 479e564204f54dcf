import ChangeWatch.Proofs.Segments.Piecewise
import ChangeWatch.Proofs.Unparsing.Behind

/-!
Expressions between braces. The end of a body is looked for in its letters, not in its tokens, so a text
that is an expression is read as that expression between braces just when it has no two closing braces in a
row: neither at the end of nested maps nor in a quoted text.
-/
namespace ChangeWatch

theorem Lexer.Apart.blank (rest : List Char) : Apart (' ' :: rest) := .cons (by decide) (by decide)

/-- Blanks around a text change nothing. -/
theorem parseSegment_padded {text : List Char} {start stop : Nat} {e : Expr}
    (read : parseSegment 0 text start = .ok (e, stop)) :
    parseSegment 0 (' ' :: (text ++ [' '])) start = .ok (e, stop) := by
  obtain ⟨tokens, ran, sentence⟩ := Grammar.parseSegment_ok_iff.mp read
  have front := (Lexer.Cuts.of_tokenize ran).behind (.blank [])
  have all := front.append (.blank rfl (.done []))
  rw [List.append_nil] at all
  obtain ⟨spanned, ran', same⟩ := (Lexer.Cuts.blank (c := ' ') rfl all).tokenize 0
  exact Grammar.parseSegment_ok_iff.mpr ⟨spanned, ran', same ▸ sentence⟩

namespace Interpolation

/-- An expression between braces, with a blank on either side. -/
def braced (text : String) : String := "\x7b\x7b " ++ text ++ " \x7d\x7d"

variable {text location location' : String} {source : Source}

theorem toList_braced (text : String) :
    (braced text).toList = '\x7b' :: '\x7b' :: ' ' :: (text.toList ++ [' ', '\x7d', '\x7d']) := by
  simp [braced]

/-- Without closing braces in a row, all the text is the body. -/
theorem divides_braced (none : ¬ Doubled '\x7d' text.toList) :
    Divides (braced text).toList [{ string := [], body := ' ' :: (text.toList ++ [' ']) }] (.plain []) := by
  rw [toList_braced]
  refine .piece (.nil _) ⟨by simp, ?_⟩ (.plain Doubled.not_nil)
  rw [List.cons_append, List.append_assoc, List.singleton_append, Doubled.cons_iff,
    Doubled.append_cons_iff (by decide)]
  rintro (⟨blank, -⟩ | doubled | last)
  · exact absurd blank (by decide)
  · exact none doubled
  · exact Doubled.not_singleton last

/-- With closing braces in a row, the text goes on behind its first piece. -/
theorem divides_cut (doubled : Doubled '\x7d' text.toList) : ∃ piece rest pieces tail,
    rest ≠ [] ∧ Divides rest pieces tail ∧ Divides (braced text).toList (piece :: pieces) tail := by
  obtain ⟨before, after, same, first⟩ := doubled.exists_first
  obtain ⟨pieces, tail, others⟩ := Divides.exist (after ++ [' ', '\x7d', '\x7d'])
  refine ⟨{ string := [], body := ' ' :: before }, _, pieces, tail, by simp, others, ?_⟩
  rw [toList_braced]
  refine .piece (.nil _) ⟨by rw [same]; simp, ?_⟩ others
  rw [List.cons_append, Doubled.cons_iff]
  rintro (⟨blank, -⟩ | doubled)
  · exact absurd blank (by decide)
  · exact first doubled

/-- An expression is read as itself between braces just when no two closing braces stand in a row in it. -/
theorem parse_braced_iff (read : parse .binding text location = .ok source) :
    (∃ whole, parse .interpolation (braced text) location' = .ok whole ∧
      whole.expr = .interpolation ["", ""] [source.expr] ∧ whole.slots = source.slots) ↔
      ¬ Doubled '\x7d' text.toList := by
  obtain ⟨found, -⟩ := parse_binding_ok_iff.mp read
  constructor
  · rintro ⟨whole, accepted, same, -⟩ doubled
    obtain ⟨piece, rest, pieces, tail, some, others, divides⟩ := divides_cut doubled
    obtain ⟨last, sources, rfl, all⟩ := all_read divides accepted
    rw [parse_accepted divides all] at accepted
    obtain rfl := Except.ok.inj accepted
    obtain ⟨strings, -⟩ := Expr.interpolation.inj same
    have few : pieces = [] := by
      have count := congrArg List.length strings
      exact List.length_eq_zero_iff.mp (by simpa using count)
    subst few
    have ended : piece.string = [] ∧ last = [] := by simpa using strings
    rw [ended.2] at others
    exact some others.letters.symm
  · intro none
    let inner : Source :=
      { source with text := String.ofList (' ' :: (text.toList ++ [' '])), location := location' }
    have accepted :
        Piece.read location' { string := [], body := ' ' :: (text.toList ++ [' ']) } = .ok inner := by
      refine parse_binding_ok_iff.mpr ⟨?_, rfl, rfl⟩
      rw [String.toList_ofList]
      exact parseSegment_padded found
    have count : source.expr.pipeSlots.length = source.slots := by
      rw [(parseSegment_spans found).2, Nat.zero_add]
    refine ⟨_, parse_accepted (divides_braced none) (.cons accepted .nil), ?_, ?_⟩
    · simp [raised, inner, Expr.raise_zero]
    · simp [pipeCount, inner, count]

namespace Samples

/-- Maps that do not end in the same place. -/
def spread : Source where
  expr := .map [("a", .array [.map [("b", .pipe (.name "c") "p" [] 0)]])]
  text := "\x7ba: [\x7bb: c | p\x7d]\x7d"
  location := "view"
  slots := 1

/-- A map that ends in a map. -/
def nested : Source where
  expr := .map [("a", .map [("b", .name "c")])]
  text := "\x7ba: \x7bb: c\x7d\x7d"
  location := "view"
  slots := 0

/-- A quoted text of closing braces. -/
def quoted : Source where
  expr := .literal (.str "\x7d\x7d")
  text := "'\x7d\x7d'"
  location := "view"
  slots := 0

end Samples

open Samples in
/-- A map in an array in a map is read between braces. -/
theorem parse_braced_spread :
    parse .binding spread.text "view" = .ok spread ∧
      ∃ whole, parse .interpolation (braced spread.text) "view" = .ok whole ∧
        whole.expr = .interpolation ["", ""] [spread.expr] ∧ whole.slots = spread.slots := by
  have read : parse .binding spread.text "view" = .ok spread := by cbv
  exact ⟨read, (parse_braced_iff read).mpr (by decide)⟩

open Samples in
/-- A map that ends in a map is an expression, and so is a quoted text of closing braces; but between braces
both end at the first pair in their own letters. -/
theorem parse_braced_cut :
    parse .binding nested.text "view" = .ok nested ∧ parse .binding quoted.text "view" = .ok quoted ∧
      parse .interpolation (braced nested.text) "view" = .error
        { fault := .unexpectedEnd .commaOrBrace, input := braced nested.text, location := "view" } ∧
      parse .interpolation (braced quoted.text) "view" = .error
        { fault := .invalidToken "'" 3, input := braced quoted.text, location := "view" } := by
  refine ⟨by cbv, by cbv, by cbv, by cbv⟩

end Interpolation
end ChangeWatch
