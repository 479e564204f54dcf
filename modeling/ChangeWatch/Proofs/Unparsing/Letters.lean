import ChangeWatch.Proofs.Numerals.Literals
import ChangeWatch.Proofs.Unparsing.Accepted

/-!
Reading texts by their letters. Not every canonical text can be parsed: some characters are quoted in a way
that the lexer does not know, and a key may look like a word with a meaning. But the letters of a constant
tell the constant, so it is enough to find out where its letters end.
-/
namespace ChangeWatch

/-- A token with its letters in place of its meaning, unless it is a name or a symbol. -/
def Token.byLetters (text : String) : Token → Token
  | symbol sign => symbol sign
  | ident name => ident name
  | keyword _ | int _ | float _ | str _ => str text

namespace Lexer

/-- Cuts a text as the lexer does, but takes constants by their letters, and quoted texts of any kind. -/
def byLetters : Cutter := fun c s =>
  if c = '"' then
    match literalBody '"' s with
    | (body, some rest) =>
      let letters := '"' :: (body ++ ['"'])
      .token (.str (String.ofList letters)) letters rest
    | (body, none) => .invalid ('"' :: body)
  else
    match cut c s with
    | .token token letters rest => .token (token.byLetters (String.ofList letters)) letters rest
    | .invalid letters => .invalid letters

/-- Behind a quote there is a text, or nothing that can be read. -/
theorem str_of_cut_quote {s letters rest : List Char} {token : Token}
    (taken : cut '"' s = .token token letters rest) : ∃ text, token = .str text := by
  rw [cut, if_neg (by decide), if_neg (by decide), if_pos (by decide)] at taken
  unfold literal at taken
  split at taken
  · cases taken
  · split at taken
    · cases taken
      exact ⟨_, rfl⟩
    · cases taken

theorem byLetters_of_cut {c : Char} {s letters rest : List Char} {token : Token}
    (taken : cut c s = .token token letters rest) (other : ∀ text, token ≠ .str text) :
    byLetters c s = .token (token.byLetters (String.ofList letters)) letters rest := by
  have quote : c ≠ '"' := by
    rintro rfl
    obtain ⟨text, same⟩ := str_of_cut_quote taken
    exact other text same
  simp only [byLetters, if_neg quote, taken]

instance : byLetters.KeepsSymbols where
  symbol taken := byLetters_of_cut taken fun _ clash => by cases clash
  equals s := by
    rw [byLetters, if_neg (by decide)]
    cases taken : cut '=' s with
    | invalid letters => rfl
    | token token letters rest =>
      obtain ⟨sign, rfl⟩ := sign_of_symbol taken
      rfl

variable {text : String} {token : Token}

theorem Legible.unique {cut : Cutter} {other : Token} (legible : Legible cut text token)
    (legible' : Legible cut text other) : token = other := by
  obtain ⟨c, letters, spelled, -, taken⟩ := legible [] .nil
  obtain ⟨c', letters', spelled', -, taken'⟩ := legible' [] .nil
  obtain ⟨rfl, rfl⟩ := List.cons.inj (spelled.symm.trans spelled')
  exact (Cut.token.inj (taken.symm.trans taken')).1

/-- Texts that are not quoted are taken by their letters where the lexer takes them. -/
theorem Legible.byLetters (legible : Legible cut text token) (other : ∀ text, token ≠ .str text) :
    Legible byLetters text (token.byLetters text) := by
  intro rest stops
  obtain ⟨c, letters, spelled, ink, taken⟩ := legible rest stops
  refine ⟨c, letters, spelled, ink, ?_⟩
  rw [byLetters_of_cut taken other, String.ofList_toList]

/-- Quoted texts of any kind are taken by their letters. -/
theorem byLetters_quote (s : String) : Legible byLetters (Text.quote s) (.str (Text.quote s)) := by
  intro rest _
  refine ⟨'"', _, Text.toList_quote s, by decide, ?_⟩
  rw [byLetters, if_pos rfl, List.append_assoc, List.singleton_append, literalBody_quoted]
  simp only [← Text.toList_quote, String.ofList_toList]

theorem not_legible_quote {s : String} (legible : Legible cut (Text.quote s) token) :
    ∃ text, token = .str text := by
  obtain ⟨c, letters, spelled, -, taken⟩ := legible [] .nil
  rw [Text.toList_quote] at spelled
  obtain ⟨rfl, rfl⟩ := List.cons.inj spelled
  exact str_of_cut_quote taken

end Lexer

/-- Values that are no infinite number. -/
def Value.IsFinite : Value → Prop
  | float x => x.isFinite = true
  | _ => True

/-- Tokens of constants that keep the constant as it is written. -/
def Token.IsExact : Token → Prop
  | keyword _ | int _ => True
  | _ => False

namespace Token.IsExact

variable {token : Token}

theorem ne_str (exactly : token.IsExact) (text : String) : token ≠ .str text := by
  rintro rfl
  exact exactly

theorem byLetters_eq (exactly : token.IsExact) (text : String) : token.byLetters text = .str text := by
  cases token <;> first | rfl | exact exactly.elim

end Token.IsExact

namespace Value.Lexed

variable {value other : Value}

/-- A constant is a quoted text, or a number with a point or an exponent, or the lexer reads it as itself. -/
theorem reads (lexed : value.Lexed) (finite : value.IsFinite) :
    (∃ s, value = .str s) ∨
      (∃ x read, value = .float x ∧ Lexer.Legible Lexer.cut value.renderLiteral (.float read)) ∨
        ∃ token : Token, token.IsExact ∧ token.literal? = some value ∧
          Lexer.Legible Lexer.cut value.renderLiteral token := by
  have word (name : String) (shape : isName name = true) :
      Lexer.Legible Lexer.cut name (Lexer.word name) := Lexer.legible_word shape
  cases value with
  | null => exact .inr (.inr ⟨.keyword .null, trivial, rfl, word "null" (by decide)⟩)
  | bool b =>
    cases b with
    | true => exact .inr (.inr ⟨.keyword .true, trivial, rfl, word "true" (by decide)⟩)
    | false => exact .inr (.inr ⟨.keyword .false, trivial, rfl, word "false" (by decide)⟩)
  | int n => exact .inr (.inr ⟨.int n, trivial, rfl, Lexer.legible_int lexed⟩)
  | float x =>
    obtain ⟨read, legible⟩ := Lexer.legible_float lexed
    have rendered : (Value.float x).renderLiteral = Layout.literal.render x := if_pos finite
    exact .inr (.inl ⟨x, read, rfl, rendered ▸ legible⟩)
  | str s => exact .inl ⟨s, rfl⟩
  | list | map | object | function => exact lexed.elim

/-- Constants are taken by their letters. -/
theorem byLetters (lexed : value.Lexed) (finite : value.IsFinite) :
    Lexer.Legible Lexer.byLetters value.renderLiteral (.str value.renderLiteral) := by
  obtain ⟨s, rfl⟩ | ⟨x, read, -, legible⟩ | ⟨token, exactly, -, legible⟩ := lexed.reads finite
  · exact Lexer.byLetters_quote s
  · refine legible.byLetters ?_
    rintro _ ⟨⟩
  · have taken := legible.byLetters exactly.ne_str
    rwa [exactly.byLetters_eq] at taken

/-- The letters of a constant tell the constant. -/
theorem renderLiteral_injective (lexed : value.Lexed) (finite : value.IsFinite) (lexed' : other.Lexed)
    (finite' : other.IsFinite) (same : value.renderLiteral = other.renderLiteral) : value = other := by
  obtain ⟨s, rfl⟩ | ⟨x, read, rfl, legible⟩ | ⟨token, exactly, constant, legible⟩ := lexed.reads finite <;>
    obtain ⟨t, rfl⟩ | ⟨y, read', rfl, legible'⟩ | ⟨token', exactly', constant', legible'⟩ :=
      lexed'.reads finite'
  · rw [Text.quote_injective same]
  · obtain ⟨text, clash⟩ := Lexer.not_legible_quote (same ▸ legible')
    cases clash
  · obtain ⟨text, rfl⟩ := Lexer.not_legible_quote (same ▸ legible')
    exact exactly'.elim
  · obtain ⟨text, clash⟩ := Lexer.not_legible_quote (same ▸ legible)
    cases clash
  · have rendered : (Value.float x).renderLiteral = Layout.literal.render x := if_pos finite
    have rendered' : (Value.float y).renderLiteral = Layout.literal.render y := if_pos finite'
    rw [Layout.render_injective lexed lexed' (rendered ▸ rendered' ▸ same)]
  · obtain rfl := legible.unique (same ▸ legible')
    exact exactly'.elim
  · obtain ⟨text, rfl⟩ := Lexer.not_legible_quote (same ▸ legible)
    exact exactly.elim
  · obtain rfl := legible.unique (same ▸ legible')
    exact exactly.elim
  · obtain rfl := legible.unique (same ▸ legible')
    exact Option.some.inj (constant.symm.trans constant')

end Value.Lexed
end ChangeWatch
