import ChangeWatch.Proofs.Numerals.Literals
import Mathlib.Computability.Language

/-!
The patterns of tokens, as languages, and what their words mean. A word of the pattern of names may be a
keyword, and then it is that keyword; whole numbers that do not fit 64 bits are floats; and a text in quotes
means something when its escapes do.
-/
namespace ChangeWatch.Lexer

open scoped Computability

/-- Words of one character of a kind. -/
def one (kind : Char → Bool) : Language Char := {letters | ∃ c, kind c = true ∧ letters = [c]}

/-- Words of characters of a kind, one at least. -/
def many (kind : Char → Bool) : Language Char := one kind * (one kind)∗

/-- What may stand behind the digits of a float: a letter, a sign or none, and digits. -/
def scale : Language Char :=
  one (fun c => c == 'e' || c == 'E') * ((1 + one fun c => c == '+' || c == '-') * many Char.isDigit)

/-- What stands in quotes, part by part: a character, or a backslash and a character on the same line. -/
def quotable (quote : Char) : Language Char :=
  one (fun c => c != quote && c != '\\') + one (· == '\\') * one (· != '\n')

def inQuotes (quote : Char) : Language Char :=
  one (· == quote) * ((quotable quote)∗ * one (· == quote))

/-- The declared patterns: of the tokens, and of what is dropped between them. -/
inductive Pattern where
  | keyword (word : Keyword)
  | symbol (sign : Symbol)
  | name | whole | pointed | fraction | scaled | double | single | blank

def Pattern.language : Pattern → Language Char
  | keyword word => {word.spelling.toList}
  | symbol sign => {sign.spelling.toList}
  | name => one isNameStart * (one isNamePart)∗
  | whole => many Char.isDigit
  | pointed => many Char.isDigit * (one (· == '.') * (many Char.isDigit * (1 + scale)))
  | fraction => one (· == '.') * (many Char.isDigit * (1 + scale))
  | scaled => many Char.isDigit * scale
  | double => inQuotes '"'
  | single => inQuotes '\''
  | blank => many isBlank

/-- The power of ten that a scale stands for. -/
inductive Scales : List Char → Int → Prop where
  | bare {e : Char} {digits : List Char} (letter : e = 'e' ∨ e = 'E')
      (all : digits ∈ many Char.isDigit) : Scales (e :: digits) (digitsValue digits)
  | plus {e : Char} {digits : List Char} (letter : e = 'e' ∨ e = 'E')
      (all : digits ∈ many Char.isDigit) : Scales (e :: '+' :: digits) (digitsValue digits)
  | minus {e : Char} {digits : List Char} (letter : e = 'e' ∨ e = 'E')
      (all : digits ∈ many Char.isDigit) : Scales (e :: '-' :: digits) (-(digitsValue digits : Int))

/-- What makes a float of digits: a fraction and a scale, or one of them. -/
inductive Floats : List Char → Option (List Char) → Option Int → Prop where
  | point {digits : List Char} (all : digits ∈ many Char.isDigit) : Floats ('.' :: digits) (some digits) none
  | both {digits letters : List Char} {power : Int} (all : digits ∈ many Char.isDigit)
      (scales : Scales letters power) : Floats ('.' :: (digits ++ letters)) (some digits) (some power)
  | scale {letters : List Char} {power : Int} (scales : Scales letters power) :
      Floats letters none (some power)

/-- The letters of a token. Only a fraction may stand without digits before it. -/
inductive Means : List Char → Token → Prop where
  | keyword (word : Keyword) : Means word.spelling.toList (.keyword word)
  | symbol (sign : Symbol) : Means sign.spelling.toList (.symbol sign)
  | name {letters : List Char} (matched : letters ∈ Pattern.name.language)
      (other : ∀ word : Keyword, letters ≠ word.spelling.toList) :
      Means letters (.ident (String.ofList letters))
  | whole {letters : List Char} {n : Int64} (all : letters ∈ many Char.isDigit)
      (fits : int64? (digitsValue letters) = some n) : Means letters (.int n)
  | large {letters : List Char} (all : letters ∈ many Char.isDigit)
      (exceeds : int64? (digitsValue letters) = none) :
      Means letters (.float (floatOfDecimal (digitsValue letters) 0))
  | float {whole letters : List Char} {fraction : Option (List Char)} {exponent : Option Int}
      (before : whole ∈ many Char.isDigit ∨ whole = [] ∧ fraction ≠ none)
      (floats : Floats letters fraction exponent) : Means (whole ++ letters)
        (.float { negative := false, whole, fraction, exponent : Numeral }.nearest)
  | quoted {quote : Char} {body cs : List Char} (mark : quote = '"' ∨ quote = '\'')
      (parts : body ∈ (quotable quote)∗) (read : unescape body = some cs) :
      Means (quote :: (body ++ [quote])) (.str (String.ofList cs))

/-- Nothing longer at the same place is a word of any pattern. -/
def Longest (letters rest : List Char) : Prop :=
  ∀ (pattern : Pattern) (more others : List Char), rest = more ++ others →
    letters ++ more ∈ pattern.language → more = []

/-- Letters that are a token in front of a rest: a word of a pattern, the longest there, with a meaning. -/
structure Lexeme (letters rest : List Char) (token : Token) : Prop where
  matched : ∃ pattern : Pattern, letters ∈ pattern.language
  longest : Longest letters rest
  means : Means letters token

/-!
Words by their letters.
-/

variable {kind : Char → Bool} {letters : List Char} {quote : Char}

theorem mem_star_one : letters ∈ (one kind)∗ ↔ ∀ c ∈ letters, kind c = true := by
  rw [Language.mem_kstar]
  constructor
  · rintro ⟨words, rfl, single⟩ c member
    obtain ⟨word, known, here⟩ := List.mem_flatten.mp member
    obtain ⟨d, of_kind, rfl⟩ := single word known
    obtain rfl := List.mem_singleton.mp here
    exact of_kind
  · intro all
    refine ⟨letters.map fun c => [c], ?_, ?_⟩
    · rw [← List.flatMap_def, List.flatMap_singleton']
    · intro word member
      obtain ⟨c, here, rfl⟩ := List.mem_map.mp member
      exact ⟨c, all c here, rfl⟩

theorem mem_one_mul {others : Language Char} :
    letters ∈ one kind * others ↔ ∃ c rest, letters = c :: rest ∧ kind c = true ∧ rest ∈ others := by
  rw [Language.mem_mul]
  constructor
  · rintro ⟨_, ⟨c, of_kind, rfl⟩, rest, member, rfl⟩
    exact ⟨c, rest, rfl, of_kind, member⟩
  · rintro ⟨c, rest, rfl, of_kind, member⟩
    exact ⟨[c], ⟨c, of_kind, rfl⟩, rest, member, rfl⟩

theorem mem_many : letters ∈ many kind ↔ letters ≠ [] ∧ ∀ c ∈ letters, kind c = true := by
  rw [many, mem_one_mul]
  constructor
  · rintro ⟨c, rest, rfl, first, others⟩
    exact ⟨List.cons_ne_nil c rest, List.forall_mem_cons.mpr ⟨first, mem_star_one.mp others⟩⟩
  · rintro ⟨some, all⟩
    obtain ⟨c, rest, rfl⟩ := List.exists_cons_of_ne_nil some
    obtain ⟨first, others⟩ := List.forall_mem_cons.mp all
    exact ⟨c, rest, rfl, first, mem_star_one.mpr others⟩

theorem mem_name : letters ∈ Pattern.name.language ↔
    ∃ c rest, letters = c :: rest ∧ isNameStart c = true ∧ ∀ d ∈ rest, isNamePart d = true := by
  rw [Pattern.language, mem_one_mul]
  simp only [mem_star_one]

theorem mem_scale : letters ∈ scale ↔ ∃ power, Scales letters power := by
  rw [scale, mem_one_mul, add_mul, one_mul]
  simp only [Language.mem_add, mem_one_mul, Bool.or_eq_true, beq_iff_eq]
  constructor
  · rintro ⟨e, _, rfl, letter, digits | ⟨c, digits, rfl, rfl | rfl, all⟩⟩
    · exact ⟨_, .bare letter digits⟩
    · exact ⟨_, .plus letter all⟩
    · exact ⟨_, .minus letter all⟩
  · rintro ⟨power, scales⟩
    cases scales with
    | bare letter all => exact ⟨_, _, rfl, letter, .inl all⟩
    | plus letter all => exact ⟨_, _, rfl, letter, .inr ⟨_, _, rfl, .inl rfl, all⟩⟩
    | minus letter all => exact ⟨_, _, rfl, letter, .inr ⟨_, _, rfl, .inr rfl, all⟩⟩

/-- A fraction, with a scale behind it or without. -/
theorem mem_fraction : letters ∈ Pattern.fraction.language ↔
    ∃ digits power, Floats letters (some digits) power := by
  rw [Pattern.language, mem_one_mul]
  simp only [beq_iff_eq, Language.mem_mul, Language.mem_add, Language.mem_one, mem_scale]
  constructor
  · rintro ⟨_, _, rfl, rfl, digits, all, _, rfl | ⟨power, scales⟩, rfl⟩
    · rw [List.append_nil]
      exact ⟨digits, none, .point all⟩
    · exact ⟨digits, some power, .both all scales⟩
  · rintro ⟨digits, power, floats⟩
    cases floats with
    | point all => exact ⟨'.', digits, rfl, rfl, digits, all, [], .inl rfl, List.append_nil digits⟩
    | both all scales => exact ⟨'.', _, rfl, rfl, digits, all, _, .inr ⟨_, scales⟩, rfl⟩

/-- The words of the patterns of floats. -/
theorem Floats.matched {whole : List Char} {fraction : Option (List Char)} {exponent : Option Int}
    (before : whole ∈ many Char.isDigit ∨ whole = [] ∧ fraction ≠ none)
    (floats : Floats letters fraction exponent) :
    ∃ pattern : Pattern, whole ++ letters ∈ pattern.language := by
  cases fraction with
  | none =>
    obtain ⟨power, rfl⟩ : ∃ power, exponent = some power := by
      cases floats
      exact ⟨_, rfl⟩
    have digits := before.resolve_right fun none => none.2 rfl
    have scales : letters ∈ Lexer.scale := by
      cases floats with
      | scale scales => exact mem_scale.mpr ⟨power, scales⟩
    exact ⟨.scaled, Language.append_mem_mul digits scales⟩
  | some digits =>
    have behind := mem_fraction.mpr ⟨digits, exponent, floats⟩
    rcases before with all | ⟨rfl, -⟩
    · exact ⟨.pointed, Language.append_mem_mul all behind⟩
    · exact ⟨.fraction, behind⟩

theorem mem_star_quotable : letters ∈ (quotable quote)∗ ↔ letters = [] ∨
    (∃ c rest, letters = c :: rest ∧ (c ≠ quote ∧ c ≠ '\\') ∧ rest ∈ (quotable quote)∗) ∨
    ∃ d rest, letters = '\\' :: d :: rest ∧ d ≠ '\n' ∧ rest ∈ (quotable quote)∗ := by
  conv_lhs => rw [← Language.one_add_self_mul_kstar_eq_kstar]
  rw [Language.mem_add, Language.mem_one, quotable, add_mul, Language.mem_add, mul_assoc, ← quotable]
  simp only [mem_one_mul, bne_iff_ne, beq_iff_eq, Bool.and_eq_true, ne_eq]
  constructor
  · rintro (rfl | ⟨c, rest, rfl, plain, parts⟩ | ⟨_, _, rfl, rfl, d, rest, rfl, line, parts⟩)
    · exact .inl rfl
    · exact .inr (.inl ⟨c, rest, rfl, plain, parts⟩)
    · exact .inr (.inr ⟨d, rest, rfl, line, parts⟩)
  · rintro (rfl | ⟨c, rest, rfl, plain, parts⟩ | ⟨d, rest, rfl, line, parts⟩)
    · exact .inl rfl
    · exact .inr (.inl ⟨c, rest, rfl, plain, parts⟩)
    · exact .inr (.inr ⟨'\\', _, rfl, rfl, d, rest, rfl, line, parts⟩)

theorem mem_inQuotes : letters ∈ inQuotes quote ↔
    ∃ body, letters = quote :: (body ++ [quote]) ∧ body ∈ (quotable quote)∗ := by
  rw [inQuotes, mem_one_mul]
  simp only [Language.mem_mul, beq_iff_eq]
  constructor
  · rintro ⟨_, _, rfl, rfl, body, parts, _, ⟨c, same, rfl⟩, rfl⟩
    exact ⟨body, by rw [beq_iff_eq.mp same], parts⟩
  · rintro ⟨body, rfl, parts⟩
    exact ⟨quote, _, rfl, rfl, body, parts, _, ⟨quote, beq_self_eq_true quote, rfl⟩, rfl⟩

/-- What has a meaning is a word of some pattern. -/
theorem Means.matched {token : Token} (means : Means letters token) :
    ∃ pattern : Pattern, letters ∈ pattern.language := by
  cases means with
  | keyword word => exact ⟨.keyword word, rfl⟩
  | symbol sign => exact ⟨.symbol sign, rfl⟩
  | name matched => exact ⟨.name, matched⟩
  | whole all | large all => exact ⟨.whole, all⟩
  | float before floats => exact floats.matched before
  | quoted mark parts =>
    have quoted := mem_inQuotes.mpr ⟨_, rfl, parts⟩
    rcases mark with rfl | rfl
    · exact ⟨.double, quoted⟩
    · exact ⟨.single, quoted⟩

end ChangeWatch.Lexer
