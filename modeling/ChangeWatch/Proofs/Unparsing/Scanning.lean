import ChangeWatch.Expr.Lexer
import ChangeWatch.Proofs.Unparsing.Quoting

/-!
How texts are cut. A part of a text is cut with the letters behind it in view, so that nothing the longest
token would take is left out, and parts that follow each other are cut one after the other. The lexer is
one way to cut; others take the same symbols and read words, numbers and quoted texts differently.
-/
namespace ChangeWatch.Lexer

/-- A way to cut the first token off a text, which is given by its first character and the others. -/
abbrev Cutter := Char → List Char → Cut

/-- Takes symbols as the lexer does, and nothing else that starts with an equals sign. -/
class Cutter.KeepsSymbols (cut : Cutter) : Prop where
  symbol {c : Char} {s letters rest : List Char} {sign : Symbol}
    (taken : Lexer.cut c s = .token (.symbol sign) letters rest) :
    cut c s = .token (.symbol sign) letters rest
  equals (s : List Char) : cut '=' s = Lexer.cut '=' s

instance : Cutter.KeepsSymbols cut := ⟨id, fun _ => rfl⟩

/-- The letters up to the rest are cut into tokens. -/
inductive Cuts (cut : Cutter) : List Char → List Token → List Char → Prop where
  | done (rest : List Char) : Cuts cut rest [] rest
  | blank {s rest : List Char} {tokens : List Token} {c : Char} (blank : isBlank c = true)
      (others : Cuts cut s tokens rest) : Cuts cut (c :: s) tokens rest
  | token {s letters after rest : List Char} {tokens : List Token} {c : Char} {token : Token}
      (ink : isBlank c = false)
      (first : cut c s = .token token letters after) (less : after.length ≤ s.length)
      (others : Cuts cut after tokens rest) : Cuts cut (c :: s) (token :: tokens) rest

/-- A text is cut as one token, with the rest in view. -/
def Taken (cut : Cutter) (text : List Char) (token : Token) (rest : List Char) : Prop :=
  ∃ c letters, text = c :: letters ∧ isBlank c = false ∧ cut c (letters ++ rest) = .token token text rest

theorem Taken.cuts {cut : Cutter} {text rest : List Char} {token : Token}
    (taken : Taken cut text token rest) : Cuts cut (text ++ rest) [token] rest := by
  obtain ⟨c, letters, rfl, ink, first⟩ := taken
  exact .token ink first (by simp) (.done rest)

namespace Cuts

variable {cut : Cutter} {text middle rest : List Char} {tokens others : List Token}

theorem append (first : Cuts cut text tokens middle) (last : Cuts cut middle others rest) :
    Cuts cut text (tokens ++ others) rest := by
  induction first with
  | done => exact last
  | blank ink _ ih => exact .blank ink (ih last)
  | token ink first less _ ih => exact .token ink first less (ih last)

/-- A text that is cut to its end is cut there as any part of it in front is. -/
theorem left (front : Cuts cut text tokens middle) (all : Cuts cut text others []) :
    ∃ more, others = tokens ++ more ∧ Cuts cut middle more [] := by
  induction front generalizing others with
  | done => exact ⟨others, rfl, all⟩
  | blank blank _ ih =>
    cases all with
    | blank _ others => exact ih others
    | token ink => exact absurd (blank.symm.trans ink) (by decide)
  | token ink first _ _ ih =>
    cases all with
    | blank blank => exact absurd (blank.symm.trans ink) (by decide)
    | token _ first' _ others =>
      cases first.symm.trans first'
      obtain ⟨more, rfl, behind⟩ := ih others
      exact ⟨more, rfl, behind⟩

/-- A text that is cut to its end is cut in one way. -/
theorem unique (cuts : Cuts cut text tokens []) (cuts' : Cuts cut text others []) : tokens = others := by
  obtain ⟨more, same, none⟩ := cuts.left cuts'
  cases none
  rw [same, List.append_nil]

/-- A text that the lexer cuts to its end has these tokens, at some places. -/
theorem tokenize (cuts : Cuts Lexer.cut text tokens []) (offset : Nat) :
    ∃ spanned, tokenizeFrom offset text = .ok spanned ∧ spanned.map Spanned.token = tokens := by
  have all (steps : Nat) : ∀ offset, text.length ≤ steps →
      ∃ spanned, cutAll steps offset text = .ok spanned ∧ spanned.map Spanned.token = tokens := by
    generalize ends : ([] : List Char) = rest at cuts
    induction cuts generalizing steps with
    | done =>
      subst ends
      exact fun offset _ => ⟨[], by cases steps <;> rfl, rfl⟩
    | blank blank _ ih =>
      intro offset enough
      cases steps with
      | zero => cases enough
      | succ steps =>
        rw [cutAll, if_pos blank]
        exact ih steps ends _ (Nat.le_of_succ_le_succ enough)
    | @token s letters after _ _ _ _ ink first less _ ih =>
      intro offset enough
      cases steps with
      | zero => cases enough
      | succ steps =>
        have fewer : after.length ≤ steps := Nat.le_trans less (Nat.le_of_succ_le_succ enough)
        obtain ⟨spanned, ran, rfl⟩ := ih steps ends (offset + byteSize letters) fewer
        refine ⟨{ token := _, start := offset, stop := offset + byteSize letters } :: spanned, ?_, rfl⟩
        rw [cutAll, if_neg (by rw [ink]; exact Bool.false_ne_true), first]
        simp only [ran]
  exact all text.length offset (Nat.le_refl _)

variable [cut.KeepsSymbols]

/-- A symbol of one letter. -/
theorem sign {c : Char} {sign : Symbol} (ink : isBlank c = false)
    (alone : Lexer.cut c rest = .token (.symbol sign) [c] rest) :
    Cuts cut (c :: rest) [.symbol sign] rest :=
  .token ink (Cutter.KeepsSymbols.symbol alone) (Nat.le_refl _) (.done rest)

/-- A symbol of two letters. -/
theorem pair {c d : Char} {sign : Symbol} (ink : isBlank c = false)
    (both : Lexer.cut c (d :: rest) = .token (.symbol sign) [c, d] rest) :
    Cuts cut (c :: d :: rest) [.symbol sign] rest :=
  .token ink (Cutter.KeepsSymbols.symbol both) (Nat.le_succ _) (.done rest)

/-- A symbol of three letters. -/
theorem triple {c d e : Char} {sign : Symbol} (ink : isBlank c = false)
    (all : Lexer.cut c (d :: e :: rest) = .token (.symbol sign) [c, d, e] rest) :
    Cuts cut (c :: d :: e :: rest) [.symbol sign] rest :=
  .token ink (Cutter.KeepsSymbols.symbol all) (Nat.le_add_right _ 2) (.done rest)

end Cuts

/-- Letters that go on with no word and no number. -/
def Stops (rest : List Char) : Prop :=
  ∀ c s, rest = c :: s →
    isNamePart c = false ∧ (c = '.' → ∀ d behind, s = d :: behind → d.isDigit = false)

namespace Stops

variable {rest : List Char}

theorem nil : Stops [] := nofun

theorem cons {c : Char} (other : isNamePart c = false) (point : c ≠ '.') : Stops (c :: rest) := by
  rintro _ _ ⟨⟩
  exact ⟨other, fun same => absurd same point⟩

theorem head {c : Char} (stops : Stops (c :: rest)) : isNamePart c = false :=
  (stops c rest rfl).1

theorem not_digit {c : Char} (stops : Stops (c :: rest)) : c.isDigit = false := by
  have other := stops.head
  simp only [isNamePart, Char.isAlphanum, Bool.or_eq_false_iff] at other
  exact other.1.1.2

theorem fraction? (stops : Stops rest) : fraction? rest = none := by
  unfold Lexer.fraction?
  split
  · rename_i behind
    have none : behind.takeWhile Char.isDigit = [] := by
      cases behind with
      | nil => rfl
      | cons d behind => simp [(stops '.' _ rfl).2 rfl d behind rfl]
    simp [none]
  · rfl

theorem exponent? (stops : Stops rest) : exponent? rest = none := by
  cases rest with
  | nil => rfl
  | cons e rest =>
    have other := stops.head
    have neither : ¬ (e = 'e' ∨ e = 'E') := by
      rintro (rfl | rfl) <;> exact absurd other (by decide)
    exact if_neg neither

/-- Letters of a kind are taken up to the rest. -/
theorem takeWhile_append {kind : Char → Bool} {letters : List Char} (all : ∀ c ∈ letters, kind c = true)
    (others : ∀ c s, rest = c :: s → kind c = false) :
    (letters ++ rest).takeWhile kind = letters ∧ (letters ++ rest).dropWhile kind = rest := by
  rw [List.takeWhile_append_of_pos all, List.dropWhile_append_of_pos all]
  cases rest with
  | nil => simp
  | cons c s => simp [others c s rfl]

end Stops

/-- A text is cut as one token wherever the letters behind it do not go on with it. -/
def Legible (cut : Cutter) (text : String) (token : Token) : Prop :=
  ∀ rest, Stops rest → Taken cut text.toList token rest

/-- A text with the shape of a name is cut as that name. -/
structure LegibleName (cut : Cutter) (name : String) : Prop where
  shape : isName name = true
  legible : Legible cut name (Token.ident name)

namespace LegibleName

variable {cut : Cutter} {name : String}

theorem cuts (legible : LegibleName cut name) {rest : List Char} (stops : Stops rest) :
    Cuts cut (name.toList ++ rest) [Token.ident name] rest := (legible.legible rest stops).cuts

theorem starts (legible : LegibleName cut name) :
    ∃ c rest, name.toList = c :: rest ∧ isNameStart c = true := by
  have shape := legible.shape
  unfold isName at shape
  split at shape
  · cases shape
  · rename_i c rest same
    rw [Bool.and_eq_true] at shape
    exact ⟨c, rest, same, shape.1⟩

end LegibleName

theorem isBlank_of_isNamePart {c : Char} (part : isNamePart c = true) : isBlank c = false := by
  rw [← Bool.not_eq_true]
  intro blank
  simp only [isBlank, Bool.or_eq_true, beq_iff_eq] at blank
  rcases blank with ((rfl | rfl) | rfl) | rfl <;> exact absurd part (by decide)

theorem isNamePart_of_isNameStart {c : Char} (starts : isNameStart c = true) : isNamePart c = true := by
  simp only [isNameStart, isNamePart, Char.isAlphanum, Bool.or_eq_true] at starts ⊢
  rcases starts with (alpha | rest) | rest
  · exact .inl (.inl (.inl alpha))
  · exact .inl (.inr rest)
  · exact .inr rest

theorem isNamePart_of_isDigit (c : Char) (digit : c.isDigit = true) : isNamePart c = true := by
  simp [isNamePart, Char.isAlphanum, digit]

theorem not_start_of_digit {c : Char} (digit : c.isDigit = true) : isNameStart c = false := by
  simp only [Char.isDigit, Bool.and_eq_true, decide_eq_true_eq] at digit
  obtain ⟨least, most⟩ := digit
  have below {least' : UInt32} (low : '9'.val < least') : ¬ least' ≤ c.val := fun above =>
    absurd (UInt32.le_trans above most) (UInt32.not_le.mpr low)
  have upper : c.isUpper = false := decide_eq_false fun letter => below (by decide) letter.1
  have lower : c.isLower = false :=
    Bool.and_eq_false_imp.mpr fun letter => (below (by decide) (of_decide_eq_true letter)).elim
  have letter : c.isAlpha = false := Bool.or_eq_false_iff.mpr ⟨upper, lower⟩
  have line : c ≠ '_' := by
    rintro rfl
    exact absurd most (by decide)
  have dollar : c ≠ '$' := by
    rintro rfl
    exact absurd least (by decide)
  simp [isNameStart, letter, line, dollar]

/-- A text with the shape of a name is one token. -/
theorem legible_word {name : String} (shape : isName name = true) : Legible cut name (word name) := by
  intro rest stops
  unfold isName at shape
  split at shape
  · cases shape
  · rename_i c letters spelled
    rw [Bool.and_eq_true] at shape
    obtain ⟨starts, parts⟩ := shape
    obtain ⟨taken, left⟩ := Stops.takeWhile_append (List.all_eq_true.mp parts)
      fun c s (same : rest = c :: s) => (stops c s same).1
    have first : cut c (letters ++ rest) = .token (word name) (c :: letters) rest := by
      rw [cut, if_pos starts, taken, left]
      simp only [← spelled, String.ofList_toList]
    exact ⟨c, letters, spelled, isBlank_of_isNamePart (isNamePart_of_isNameStart starts), spelled ▸ first⟩

theorem toList_toString_nat (n : Nat) : (toString (n : Int)).toList = Nat.toDigits 10 n :=
  (congrArg String.toList Nat.repr_eq_ofList_toDigits).trans String.toList_ofList

theorem toDigits_isDigit (n : Nat) : ∀ c ∈ Nat.toDigits 10 n, c.isDigit = true :=
  fun _ member => Nat.isDigit_of_mem_toDigits (by decide) (by decide) member

theorem digitsValue_toDigits (n : Nat) : digitsValue (Nat.toDigits 10 n) = n :=
  Nat.ofDigitChars_toDigits (by decide) (by decide)

/-- The digits of a whole number that fits 64 bits are one token. -/
theorem legible_int {n : Int64} (natural : 0 ≤ n.toInt) : Legible cut (toString n.toInt) (.int n) := by
  intro rest stops
  obtain ⟨m, same⟩ := Int.eq_ofNat_of_zero_le natural
  have digits : (toString n.toInt).toList = Nat.toDigits 10 m := by
    rw [same]
    exact toList_toString_nat m
  have all := toDigits_isDigit m
  have fits : int64? m = some n := by
    have upper := n.toInt_lt
    have range : -0x8000000000000000 ≤ n.toInt ∧ n.toInt < 0x8000000000000000 := by omega
    rw [← same, int64?, if_pos range, Int64.ofInt_toInt]
  have known : integer (Nat.toDigits 10 m) = .int n := by
    simp only [integer, digitsValue_toDigits, fits, Option.map_some, Option.getD_some]
  rw [digits]
  cases spelled : Nat.toDigits 10 m with
  | nil => exact absurd spelled Nat.toDigits_ne_nil
  | cons c ds =>
    rw [spelled] at all known
    obtain ⟨digit, others⟩ := List.forall_mem_cons.mp all
    have behind (d : Char) (s : List Char) (same : rest = d :: s) : d.isDigit = false := by
      subst same
      exact stops.not_digit
    obtain ⟨taken, left⟩ := Stops.takeWhile_append others behind
    have first : cut c (ds ++ rest) = .token (.int n) (c :: ds) rest := by
      rw [cut, if_neg (by rw [not_start_of_digit digit]; exact Bool.false_ne_true), if_pos digit,
        taken, left]
      simp [number, stops.fraction?, stops.exponent?, known]
    exact ⟨c, ds, rfl, isBlank_of_isNamePart (isNamePart_of_isDigit c digit), first⟩

/-- The characters that a quoted text keeps: printable ones of ASCII, and some controls. -/
def IsPlain (c : Char) : Prop :=
  0x20 ≤ c.toNat ∧ c.toNat < 0x7f ∨ c = '\t' ∨ c = '\r' ∨ c = '\n' ∨ c = '\x00'

instance (c : Char) : Decidable (IsPlain c) :=
  inferInstanceAs <|
    Decidable (0x20 ≤ c.toNat ∧ c.toNat < 0x7f ∨ c = '\t' ∨ c = '\r' ∨ c = '\n' ∨ c = '\x00')

/-- The characters that quotes keep: the ones that are shown, and the ones with a letter of their own. The
others are written by their number. -/
def IsKept (c : Char) : Prop := Text.isHidden c = false ∨ c ∈ ['\x00', '\t', '\r', '\n']

instance (c : Char) : Decidable (IsKept c) :=
  inferInstanceAs (Decidable (Text.isHidden c = false ∨ c ∈ ['\x00', '\t', '\r', '\n']))

theorem IsPlain.kept {c : Char} (plain : IsPlain c) : IsKept c := by
  rcases plain with printable | rfl | rfl | rfl | rfl
  · exact .inl (if_pos printable)
  all_goals exact .inr (by decide)

/-- A kept character stands for itself in quotes, or for a letter behind a backslash. -/
theorem quoteChar_kept {c : Char} (kept : IsKept c) :
    Text.quoteChar c = [c] ∧ c ≠ '"' ∧ c ≠ '\\' ∨
      ∃ letter, Text.quoteChar c = ['\\', letter] ∧ letter ≠ '\n' ∧ letter ≠ 'u' ∧ escaped letter = c := by
  by_cases control : c ∈ ['\x00', '\t', '\r', '\n', '\\', '"']
  · simp only [List.mem_cons, List.not_mem_nil, or_false] at control
    rcases control with rfl | rfl | rfl | rfl | rfl | rfl
    · exact .inr ⟨'0', by decide⟩
    · exact .inr ⟨'t', by decide⟩
    · exact .inr ⟨'r', by decide⟩
    · exact .inr ⟨'n', by decide⟩
    · exact .inr ⟨'\\', by decide⟩
    · exact .inr ⟨'"', by decide⟩
  · simp only [List.mem_cons, List.not_mem_nil, or_false, not_or] at control
    obtain ⟨zero, tab, feed, line, slash, quote⟩ := control
    have shown : Text.isHidden c = false := by
      simpa [IsKept, zero, tab, feed, line] using kept
    exact .inl ⟨by simp [Text.quoteChar, zero, tab, feed, line, slash, quote, shown], quote, slash⟩

/-- Any other character is written by its number. -/
theorem quoteChar_numbered {c : Char} (numbered : ¬ IsKept c) :
    ∃ digits, Text.quoteChar c = '\\' :: 'u' :: '\x7b' :: digits := by
  simp only [IsKept, List.mem_cons, List.not_mem_nil, or_false, not_or, Bool.not_eq_false] at numbered
  obtain ⟨hidden, zero, tab, feed, line⟩ := numbered
  have slash : c ≠ '\\' := by
    rintro rfl
    exact absurd hidden (by decide)
  have quote : c ≠ '"' := by
    rintro rfl
    exact absurd hidden (by decide)
  exact ⟨Text.hex c.toNat ++ ['\x7d'], by simp [Text.quoteChar, zero, tab, feed, line, slash, quote, hidden]⟩

/-- Letters that stand for themselves are taken one by one. -/
theorem literalBody_append {letters : List Char} (plain : ∀ c ∈ letters, c ≠ '"' ∧ c ≠ '\\')
    (rest : List Char) : literalBody '"' (letters ++ rest) =
      (letters ++ (literalBody '"' rest).1, (literalBody '"' rest).2) := by
  induction letters with
  | nil => rfl
  | cons c letters ih =>
    obtain ⟨⟨quote, slash⟩, others⟩ := List.forall_mem_cons.mp plain
    rw [List.cons_append, literalBody.eq_def]
    split
    · contradiction
    · rename_i clash
      exact absurd (List.cons.inj clash).1 slash
    · rename_i clash
      obtain ⟨rfl, rfl⟩ := List.cons.inj clash
      simp [quote, slash, ih others]

theorem literalBody_quoted (cs rest : List Char) :
    literalBody '"' (cs.flatMap Text.quoteChar ++ '"' :: rest) =
      (cs.flatMap Text.quoteChar, some rest) := by
  induction cs with
  | nil => rfl
  | cons c cs ih =>
    rw [List.flatMap_cons, List.append_assoc]
    have written := Text.written_quoteChar c
    generalize Text.quoteChar c = text at written
    cases written with
    | plain quote slash => rw [literalBody_append (by simp [quote, slash]), ih]
    | @escape letter known =>
      have line : letter ≠ '\n' := by
        have lines : ∀ p ∈ Text.escapes, p.2 ≠ '\n' := by decide
        exact lines _ known
      simp [literalBody, line, ih]
    | number =>
      have digits : ∀ d ∈ '\x7b' :: (Text.hex c.toNat ++ ['\x7d']), d ≠ '"' ∧ d ≠ '\\' := by
        intro d member
        refine ⟨?_, ?_⟩ <;> rintro rfl <;> simp at member <;>
          exact Text.not_mem_hex (by decide) member
      have taken := literalBody_append digits (cs.flatMap Text.quoteChar ++ '"' :: rest)
      rw [List.cons_append, List.cons_append, literalBody, if_neg (by decide), taken, ih]
      simp

/-- Escapes are resolved one by one. -/
theorem unescape_quoteChar {c : Char} (kept : IsKept c) (rest : List Char) :
    unescape (Text.quoteChar c ++ rest) = (unescape rest).map (c :: ·) := by
  rcases quoteChar_kept kept with ⟨same, quote, slash⟩ | ⟨letter, same, line, code, means⟩
  · rw [same, List.singleton_append, unescape.eq_def]
    split
    · contradiction
    · rename_i clash
      exact absurd (List.cons.inj clash).1 slash
    · rename_i clash
      exact absurd (List.cons.inj clash).1 slash
    · rename_i clash
      obtain ⟨rfl, rfl⟩ := List.cons.inj clash
      simp [slash]
  · rw [same, List.cons_append, List.singleton_append, unescape.eq_def]
    split
    · contradiction
    · rename_i clash
      exact absurd (List.cons.inj (List.cons.inj clash).2).1 code
    · rename_i clash
      obtain ⟨rfl, rfl⟩ := List.cons.inj (List.cons.inj clash).2
      simp [code, means]
    · rename_i apart clash
      obtain ⟨rfl, rfl⟩ := List.cons.inj clash
      exact absurd rfl (apart _ _ rfl)

/-- A number in braces is no escape. -/
theorem unescape_numbered (rest : List Char) : unescape ('\\' :: 'u' :: '\x7b' :: rest) = none := by
  rw [unescape.eq_def]
  split
  · contradiction
  · rename_i clash
    simp only [List.cons.injEq, true_and] at clash
    obtain ⟨rfl, -⟩ := clash
    rfl
  · rename_i clash
    obtain ⟨rfl, -⟩ := List.cons.inj (List.cons.inj clash).2
    rfl
  · rename_i apart clash
    obtain ⟨rfl, rfl⟩ := List.cons.inj clash
    exact absurd rfl (apart _ _ rfl)

theorem unescape_quoted {cs : List Char} (kept : ∀ c ∈ cs, IsKept c) :
    unescape (cs.flatMap Text.quoteChar) = some cs := by
  induction cs with
  | nil => rfl
  | cons c cs ih =>
    obtain ⟨here, others⟩ := List.forall_mem_cons.mp kept
    rw [List.flatMap_cons, unescape_quoteChar here, ih others, Option.map_some]

theorem unescape_quoted_none {cs : List Char} (numbered : ∃ c ∈ cs, ¬ IsKept c) :
    unescape (cs.flatMap Text.quoteChar) = none := by
  induction cs with
  | nil => simp at numbered
  | cons c cs ih =>
    rw [List.flatMap_cons]
    by_cases kept : IsKept c
    · have behind : ∃ d ∈ cs, ¬ IsKept d := by simpa [kept] using numbered
      rw [unescape_quoteChar kept, ih behind, Option.map_none]
    · obtain ⟨digits, same⟩ := quoteChar_numbered kept
      rw [same]
      exact unescape_numbered _

/-- A quoted text of kept characters is one token. -/
theorem legible_quote {s : String} (kept : ∀ c ∈ s.toList, IsKept c) :
    Legible cut (Text.quote s) (.str s) := by
  intro rest _
  have first : cut '"' (s.toList.flatMap Text.quoteChar ++ '"' :: rest) =
      .token (.str s) ('"' :: (s.toList.flatMap Text.quoteChar ++ ['"'])) rest := by
    rw [cut, if_neg (by decide), if_neg (by decide), if_pos (by decide), literal, literalBody_quoted]
    simp only [unescape_quoted kept, String.ofList_toList]
  refine ⟨'"', _, Text.toList_quote s, by decide, ?_⟩
  rw [Text.toList_quote, List.append_assoc]
  exact first

/-- A quoted text with any other character is no token. -/
theorem cut_quote_invalid {s : String} (numbered : ∃ c ∈ s.toList, ¬ IsKept c) (rest : List Char) :
    cut '"' (s.toList.flatMap Text.quoteChar ++ '"' :: rest) =
      .invalid ('"' :: (s.toList.flatMap Text.quoteChar ++ ['"'])) := by
  rw [cut, if_neg (by decide), if_neg (by decide), if_pos (by decide), literal, literalBody_quoted]
  simp only [unescape_quoted_none numbered]

end ChangeWatch.Lexer
