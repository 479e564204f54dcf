import ChangeWatch.Expr.Lexer
import Mathlib.Data.List.Induction
import Mathlib.Data.String.Basic

/-!
What the escapes of a text in quotes stand for. A text is decoded letter by letter, with one character for
each escape. A code is four hexadecimal digits; a plus sign with three of them is taken for one as well,
and that is the only other way to write one.
-/
namespace ChangeWatch.Lexer

variable {c : Char} {n : Nat} {letters rest cs : List Char} {Code : List Char → Char → Prop}

/-- A hexadecimal digit, small or large, and its value. -/
def HexDigit (c : Char) (n : Nat) : Prop :=
  n < 16 ∧ (c = Nat.digitChar n ∨ c = (Nat.digitChar n).toUpper)

/-- Hexadecimal digits and the number they spell: the last one counts once, those in front of it sixteen
times. -/
inductive Hex : List Char → Nat → Prop where
  | nil : Hex [] 0
  | snoc {digits : List Char} {c : Char} {higher lowest : Nat} (front : Hex digits higher)
      (last : HexDigit c lowest) : Hex (digits ++ [c]) (16 * higher + lowest)

/-- Four hexadecimal digits that spell the number of a character. -/
def FourDigits (letters : List Char) (c : Char) : Prop := letters.length = 4 ∧ Hex letters c.toNat

/-- A plus sign and three hexadecimal digits that spell the number of a character. -/
def PlusThreeDigits (letters : List Char) (c : Char) : Prop :=
  ∃ digits, letters = '+' :: digits ∧ digits.length = 3 ∧ Hex digits c.toNat

/-- What the lexer takes for the code of a character. -/
def TakenCode (letters : List Char) (c : Char) : Prop := FourDigits letters c ∨ PlusThreeDigits letters c

/-- The characters that are written as a letter behind a backslash, by this letter. -/
def lettered : List (Char × Char) :=
  [('n', '\n'), ('t', '\t'), ('r', '\r'), ('b', '\x08'), ('f', '\x0c'), ('v', '\x0b'), ('0', '\x00')]

/-- The letters of a text in quotes and the characters they stand for, one after the other, where codes of
the given form stand behind `\u`. -/
inductive Decodes (Code : List Char → Char → Prop) : List Char → List Char → Prop where
  | nil : Decodes Code [] []
  | plain {c : Char} {rest cs : List Char} (slash : c ≠ '\\') (others : Decodes Code rest cs) :
      Decodes Code (c :: rest) (c :: cs)
  | letter {c : Char} {rest cs : List Char} (other : c ≠ 'u') (others : Decodes Code rest cs) :
      Decodes Code ('\\' :: c :: rest) ((lettered.lookup c).getD c :: cs)
  | code {letters rest cs : List Char} {c : Char} (code : Code letters c) (others : Decodes Code rest cs) :
      Decodes Code ('\\' :: 'u' :: (letters ++ rest)) (c :: cs)

/-!
Numbers of hexadecimal digits.
-/

instance (c : Char) (n : Nat) : Decidable (HexDigit c n) :=
  inferInstanceAs (Decidable (_ ∧ _))

theorem HexDigit.bounds (digit : HexDigit c n) : c.toNat < 128 ∧ n < 16 := by
  have ascii : ∀ n < 16, (Nat.digitChar n).toNat < 128 ∧ (Nat.digitChar n).toUpper.toNat < 128 := by
    decide
  obtain ⟨less, rfl | rfl⟩ := digit
  · exact ⟨(ascii n less).1, less⟩
  · exact ⟨(ascii n less).2, less⟩

theorem hexDigit?_bounds (read : hexDigit? c = some n) : c.toNat < 128 ∧ n < 16 := by
  have range {low high : Char} (within : low ≤ c ∧ c ≤ high) :
      low.toNat ≤ c.toNat ∧ c.toNat ≤ high.toNat := within
  unfold hexDigit? at read
  split at read
  · rename_i digit
    have bounds := range digit
    cases read
    simp only [Char.reduceToNat] at bounds ⊢
    omega
  split at read
  · rename_i small
    have bounds := range small
    cases read
    simp only [Char.reduceToNat] at bounds ⊢
    omega
  split at read
  · rename_i large
    have bounds := range large
    cases read
    simp only [Char.reduceToNat] at bounds ⊢
    omega
  · cases read

/-- The digits that are read are those of the table. -/
theorem hexDigit?_iff : hexDigit? c = some n ↔ HexDigit c n := by
  have table : ∀ code < 128, ∀ n < 16,
      hexDigit? (Char.ofNat code) = some n ↔ HexDigit (Char.ofNat code) n := by decide +kernel
  have known (bounds : c.toNat < 128 ∧ n < 16) : hexDigit? c = some n ↔ HexDigit c n := by
    have entry := table c.toNat bounds.1 n bounds.2
    rwa [Char.ofNat_toNat] at entry
  constructor
  · intro read
    exact (known (hexDigit?_bounds read)).mp read
  · intro digit
    exact (known digit.bounds).mpr digit

theorem Hex.snoc_iff {digits : List Char} {d : Char} : Hex (digits ++ [d]) n ↔
    ∃ higher lowest, Hex digits higher ∧ HexDigit d lowest ∧ n = 16 * higher + lowest := by
  constructor
  · generalize same : digits ++ [d] = letters
    rintro (_ | ⟨front, last⟩)
    · exact absurd same (List.append_ne_nil_of_right_ne_nil digits (List.cons_ne_nil d []))
    · obtain ⟨rfl, single⟩ := List.append_inj' same rfl
      obtain ⟨rfl, -⟩ := List.cons.inj single
      exact ⟨_, _, front, last, rfl⟩
  · rintro ⟨higher, lowest, front, last, rfl⟩
    exact .snoc front last

theorem digitsOf_iff (digits : List Char) : ∀ {n}, hexNumber?.digitsOf digits = some n ↔ Hex digits n := by
  induction digits using List.reverseRecOn with
  | nil =>
    intro n
    constructor
    · rintro ⟨⟩
      exact .nil
    · generalize none : ([] : List Char) = letters
      rintro (_ | ⟨front, last⟩)
      · rfl
      · exact absurd none.symm (List.append_ne_nil_of_right_ne_nil _ (List.cons_ne_nil _ []))
  | append_singleton digits d ih =>
    intro n
    have last (higher : Nat) : [d].foldlM (fun n c => (hexDigit? c).map (16 * n + ·)) higher =
        (hexDigit? d).map (16 * higher + ·) := by
      rw [List.foldlM_cons]
      cases hexDigit? d <;> rfl
    rw [Hex.snoc_iff, hexNumber?.digitsOf, List.foldlM_append, ← hexNumber?.digitsOf]
    simp only [last, Option.bind_eq_bind, Option.bind_eq_some_iff, Option.map_eq_some_iff, ih, hexDigit?_iff]
    constructor
    · rintro ⟨higher, front, lowest, digit, rfl⟩
      exact ⟨higher, lowest, front, digit, rfl⟩
    · rintro ⟨higher, lowest, front, digit, rfl⟩
      exact ⟨higher, front, lowest, digit, rfl⟩

theorem Hex.digit {digits : List Char} (hex : Hex digits n) : ∀ c ∈ digits, ∃ value, HexDigit c value := by
  induction hex with
  | nil => nofun
  | snoc _ last ih =>
    intro c member
    rcases List.mem_append.mp member with front | here
    · exact ih c front
    · exact List.mem_singleton.mp here ▸ ⟨_, last⟩

theorem not_hexDigit (sign : c ∈ ['+', '\\']) : ¬ HexDigit c n := by
  intro digit
  have none : hexDigit? c = none := by
    simp only [List.mem_cons, List.not_mem_nil, or_false] at sign
    rcases sign with rfl | rfl <;> rfl
  rw [← hexDigit?_iff, none] at digit
  cases digit

/-- No sign is among hexadecimal digits. -/
theorem Hex.not_mem {digits : List Char} (hex : Hex digits n) (sign : c ∈ ['+', '\\']) : c ∉ digits := by
  intro member
  obtain ⟨value, digit⟩ := hex.digit c member
  exact not_hexDigit sign digit

/-!
Codes of characters.
-/

theorem scalar?_iff : scalar? n = some c ↔ c.toNat = n := by
  unfold scalar?
  split
  · rename_i valid
    constructor
    · rintro ⟨⟩
      rw [Char.ofNat, dif_pos valid]
      rfl
    · rintro rfl
      rw [Char.ofNat_toNat]
  · rename_i invalid
    constructor
    · rintro ⟨⟩
    · rintro rfl
      exact absurd c.valid invalid

theorem fourDigits_of_head (other : ∀ digits, letters ≠ '+' :: digits) :
    TakenCode letters c ↔ FourDigits letters c := by
  constructor
  · rintro (four | ⟨digits, plus, -⟩)
    · exact four
    · exact absurd plus (other digits)
  · exact .inl

/-- Four letters are read as a character if they are a code of it. -/
theorem code_iff (four : letters.length = 4) :
    (hexNumber? letters).bind scalar? = some c ↔ TakenCode letters c := by
  simp only [Option.bind_eq_some_iff, scalar?_iff, exists_eq_right']
  by_cases plus : ∃ digits, letters = '+' :: digits
  · obtain ⟨digits, rfl⟩ := plus
    have three : digits.length = 3 := Nat.succ.inj four
    obtain ⟨d, more, rfl⟩ := List.exists_cons_of_length_eq_add_one three
    rw [hexNumber?, digitsOf_iff]
    constructor
    · intro hex
      exact .inr ⟨_, rfl, three, hex⟩
    · rintro (⟨-, hex⟩ | ⟨_, ⟨⟩, -, hex⟩)
      · exact absurd List.mem_cons_self (hex.not_mem (by decide))
      · exact hex
  · have other (digits : List Char) : letters ≠ '+' :: digits := fun same => plus ⟨digits, same⟩
    rw [fourDigits_of_head other, hexNumber?.eq_2 _ fun d digits => other (d :: digits), digitsOf_iff]
    exact (and_iff_right four).symm

theorem TakenCode.length (code : TakenCode letters c) : letters.length = 4 := by
  rcases code with ⟨four, -⟩ | ⟨digits, rfl, three, -⟩
  · exact four
  · exact congrArg Nat.succ three

theorem TakenCode.slash (code : TakenCode letters c) : '\\' ∉ letters := by
  rcases code with ⟨-, hex⟩ | ⟨digits, rfl, -, hex⟩
  · exact hex.not_mem (by decide)
  · exact List.not_mem_cons_of_ne_of_not_mem (by decide) (hex.not_mem (by decide))

theorem escaped_eq (c : Char) : escaped c = (lettered.lookup c).getD c := by
  have found (letter stands : Char) (others : List (Char × Char)) :
      (((letter, stands) :: others).lookup c).getD c =
        if c = letter then stands else (others.lookup c).getD c := by
    rw [List.lookup_cons]
    by_cases same : c = letter
    · simp [same]
    · simp [same, beq_false_of_ne same]
  simp only [escaped, lettered, found, List.lookup_nil, Option.getD_none]

/-!
Texts, escape by escape.
-/

/-- Letters behind a backslash that are no code and none of the letters that stand for a character. -/
theorem Decodes.slash_cases (decodes : Decodes Code ('\\' :: rest) cs) :
    (∃ c more others, rest = c :: more ∧ c ≠ 'u' ∧ cs = (lettered.lookup c).getD c :: others ∧
      Decodes Code more others) ∨
    ∃ letters c more others, rest = 'u' :: (letters ++ more) ∧ Code letters c ∧ cs = c :: others ∧
      Decodes Code more others := by
  cases decodes with
  | plain slash => exact absurd rfl slash
  | letter other others => exact .inl ⟨_, _, _, rfl, other, rfl, others⟩
  | code code others => exact .inr ⟨_, _, _, _, rfl, code, rfl, others⟩

theorem Decodes.plain_iff (slash : c ≠ '\\') :
    Decodes Code (c :: rest) cs ↔ ∃ others, cs = c :: others ∧ Decodes Code rest others := by
  constructor
  · rintro (_ | ⟨-, others⟩ | _ | _)
    · exact ⟨_, rfl, others⟩
    all_goals exact absurd rfl slash
  · rintro ⟨others, rfl, decodes⟩
    exact .plain slash decodes

theorem Decodes.letter_iff (other : c ≠ 'u') : Decodes Code ('\\' :: c :: rest) cs ↔
    ∃ others, cs = (lettered.lookup c).getD c :: others ∧ Decodes Code rest others := by
  constructor
  · intro decodes
    obtain ⟨_, _, others, same, -, rfl, behind⟩ | ⟨_, _, _, _, same, -⟩ := decodes.slash_cases
    · obtain ⟨rfl, rfl⟩ := List.cons.inj same
      exact ⟨others, rfl, behind⟩
    · exact absurd (List.cons.inj same).1 other
  · rintro ⟨others, rfl, decodes⟩
    exact .letter other decodes

theorem Decodes.code_cases (decodes : Decodes Code ('\\' :: 'u' :: rest) cs) :
    ∃ letters c more others, rest = letters ++ more ∧ Code letters c ∧ cs = c :: others ∧
      Decodes Code more others := by
  obtain ⟨_, _, _, same, other, -⟩ | ⟨letters, c, more, others, same, code, rfl, behind⟩ :=
    decodes.slash_cases
  · exact absurd (List.cons.inj same).1.symm other
  · exact ⟨letters, c, more, others, (List.cons.inj same).2, code, rfl, behind⟩

/-- What is read between quotes is what the escapes stand for, with the codes that are taken. -/
theorem unescape_decodes (body : List Char) :
    ∀ {cs}, unescape body = some cs ↔ Decodes TakenCode body cs := by
  fun_induction unescape body with
  | case1 =>
    intro cs
    constructor
    · rintro ⟨⟩
      exact .nil
    · rintro ⟨⟩
      rfl
  | case2 i j k l rest ih =>
    intro cs
    have four : [i, j, k, l].length = 4 := rfl
    simp only [Option.bind_eq_bind, Option.pure_def, Option.bind_eq_some_iff, Option.some.injEq, ih]
    constructor
    · rintro ⟨n, number, c, scalar, others, decodes, rfl⟩
      have code := (code_iff four).mp (Option.bind_eq_some_iff.mpr ⟨n, number, scalar⟩)
      exact .code code decodes
    · intro decodes
      obtain ⟨letters, c, more, others, split, code, rfl, decodes⟩ := decodes.code_cases
      have length : [i, j, k, l].length = letters.length := four.trans code.length.symm
      have split : [i, j, k, l] ++ rest = letters ++ more := split
      obtain ⟨rfl, rfl⟩ := List.append_inj split length
      obtain ⟨n, number, scalar⟩ := Option.bind_eq_some_iff.mp ((code_iff four).mpr code)
      exact ⟨n, number, c, scalar, others, decodes, rfl⟩
  | case3 rest short =>
    intro cs
    constructor
    · nofun
    · intro decodes
      obtain ⟨letters, c, more, others, rfl, code, -⟩ := decodes.code_cases
      obtain ⟨i, j, k, l, rfl⟩ := List.length_eq_four.mp code.length
      exact (short i j k l more rfl rfl).elim
  | case4 c rest _ other ih =>
    intro cs
    simp only [Decodes.letter_iff other, ← escaped_eq, Option.map_eq_some_iff, ih]
    constructor
    · rintro ⟨others, decodes, rfl⟩
      exact ⟨others, rfl, decodes⟩
    · rintro ⟨others, rfl, decodes⟩
      exact ⟨others, decodes, rfl⟩
  | case5 rest _ last =>
    intro cs
    constructor
    · nofun
    · intro decodes
      obtain ⟨c, more, _, rfl, -⟩ | ⟨_, _, _, _, rfl, -⟩ := decodes.slash_cases
      · exact (last c more rfl rfl).elim
      · exact (last 'u' _ rfl rfl).elim
  | case6 c rest _ _ slash ih =>
    intro cs
    simp only [Decodes.plain_iff slash, Option.map_eq_some_iff, ih]
    constructor
    · rintro ⟨others, decodes, rfl⟩
      exact ⟨others, rfl, decodes⟩
    · rintro ⟨others, rfl, decodes⟩
      exact ⟨others, decodes, rfl⟩

end ChangeWatch.Lexer
