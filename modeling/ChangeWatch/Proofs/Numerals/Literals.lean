import ChangeWatch.Number.Layout
import ChangeWatch.Proofs.Numerals.Decimals
import ChangeWatch.Proofs.Numerals.Signs
import ChangeWatch.Proofs.Unparsing.Scanning

/-!
Float literals tell their floats. The text of a float is a numeral whose value is the float's shortest
decimal, the lexer takes exactly its letters, and no other numeral is written with them.
-/
namespace ChangeWatch

namespace Numeral

def fractionText (n : Numeral) : List Char :=
  match n.fraction with
  | some digits => '.' :: digits
  | none => []

def exponentText (n : Numeral) : List Char :=
  match n.exponent with
  | some e => 'e' :: (toString e).toList
  | none => []

/-- How a numeral without a sign is written. -/
def text (n : Numeral) : List Char := n.whole ++ (n.fractionText ++ n.exponentText)

/-- The number that a numeral without a sign stands for. -/
def value (n : Numeral) : ℚ :=
  digitsValue (n.whole ++ n.fraction.getD []) * 10 ^ (n.exponent.getD 0 - (n.fraction.getD []).length)

/-- The numerals of float literals: there are digits wherever there may be, and a point or an exponent. -/
structure Literal (n : Numeral) : Prop where
  unsigned : n.negative = false
  whole : n.whole ≠ [] ∧ ∀ c ∈ n.whole, c.isDigit = true
  fraction : ∀ digits, n.fraction = some digits → digits ≠ [] ∧ ∀ c ∈ digits, c.isDigit = true
  float : (n.fraction.isNone && n.exponent.isNone) = false

end Numeral

namespace Lexer

variable {rest : List Char}

/-- Letters that do not go on with a digit. -/
def NoDigit (rest : List Char) : Prop := ∀ c s, rest = c :: s → c.isDigit = false

theorem Stops.noDigit (stops : Stops rest) : NoDigit rest := by
  rintro c s rfl
  exact stops.not_digit

theorem noDigit_cons {c : Char} (other : c.isDigit = false) : NoDigit (c :: rest) := by
  rintro _ _ ⟨⟩
  exact other

theorem fraction?_digits {digits : List Char} (full : digits ≠ []) (all : ∀ c ∈ digits, c.isDigit = true)
    (ends : NoDigit rest) : fraction? ('.' :: (digits ++ rest)) = some (digits, rest) := by
  obtain ⟨taken, left⟩ := Stops.takeWhile_append all ends
  simp [fraction?, taken, left, full]

theorem exponent_run {digits : List Char} (full : digits ≠ []) (all : ∀ c ∈ digits, c.isDigit = true)
    (ends : NoDigit rest) : exponent?.run (digits ++ rest) = some (digits, rest) := by
  obtain ⟨taken, left⟩ := Stops.takeWhile_append all ends
  simp [exponent?.run, taken, left, full]

theorem exponent?_text (e : Int) (ends : NoDigit rest) :
    exponent? ('e' :: ((toString e).toList ++ rest)) = some ('e' :: (toString e).toList, e, rest) := by
  cases e with
  | ofNat n =>
    have run := exponent_run Nat.toDigits_ne_nil (toDigits_isDigit n) ends
    have spelled : (toString (Int.ofNat n)).toList = Nat.toDigits 10 n := toList_toString_nat n
    have value := digitsValue_toDigits n
    rw [spelled]
    cases digits : Nat.toDigits 10 n with
    | nil => exact absurd digits Nat.toDigits_ne_nil
    | cons c ds =>
      rw [digits] at run value
      rw [List.cons_append] at run
      have digit : c.isDigit = true := toDigits_isDigit n c (by rw [digits]; exact List.mem_cons_self)
      have minus : c ≠ '-' := by
        rintro rfl
        cases digit
      have plus : c ≠ '+' := by
        rintro rfl
        cases digit
      simp [exponent?, minus, plus, run, value]
  | negSucc n =>
    have run := exponent_run Nat.toDigits_ne_nil (toDigits_isDigit (n + 1)) ends
    have spelled : (toString (Int.negSucc n)).toList = '-' :: Nat.toDigits 10 (n + 1) := by
      have tail : (toString (Int.negSucc n)).toList = '-' :: (n + 1).repr.toList := by
        show ("-" ++ (n + 1).repr).toList = _
        simp
      rw [tail, Nat.repr_eq_ofList_toDigits, String.toList_ofList]
    have value := digitsValue_toDigits (n + 1)
    rw [spelled]
    simp [exponent?, run, value, Int.negSucc_eq]

variable {n m : Numeral}

theorem noDigit_exponentText (ends : NoDigit rest) : NoDigit (n.exponentText ++ rest) := by
  unfold Numeral.exponentText
  split
  · exact noDigit_cons (by decide)
  · exact ends

theorem noDigit_fractionText (ends : NoDigit rest) : NoDigit (n.fractionText ++ rest) := by
  unfold Numeral.fractionText
  split
  · exact noDigit_cons (by decide)
  · exact ends

/-- The lexer reads the exponent of a numeral. -/
theorem exponent?_exponentText (stops : Stops rest) : exponent? (n.exponentText ++ rest) =
    n.exponent.map fun e => (n.exponentText, e, rest) := by
  unfold Numeral.exponentText
  cases n.exponent with
  | none => exact stops.exponent?
  | some e => exact exponent?_text e stops.noDigit

/-- The lexer reads the fraction of a numeral. -/
theorem fraction?_fractionText (literal : n.Literal) (stops : Stops rest) :
    fraction? (n.fractionText ++ (n.exponentText ++ rest)) =
      n.fraction.map fun digits => (digits, n.exponentText ++ rest) := by
  have ends := noDigit_exponentText (n := n) stops.noDigit
  cases point : n.fraction with
  | none =>
    rw [Numeral.fractionText, point]
    unfold Numeral.exponentText
    cases n.exponent with
    | none => exact stops.fraction?
    | some e => rfl
  | some ds =>
    obtain ⟨full, all⟩ := literal.fraction ds point
    rw [Numeral.fractionText, point]
    exact fraction?_digits full all ends

/-- The lexer reads a numeral behind its whole digits. -/
theorem number_text (literal : n.Literal) (stops : Stops rest) :
    number n.whole (n.fractionText ++ (n.exponentText ++ rest)) =
      .token (.float n.nearest) n.text rest := by
  have fraction := fraction?_fractionText literal stops
  have exponent := exponent?_exponentText (n := n) stops
  have float := literal.float
  have numeral :
      n = { negative := false, whole := n.whole, fraction := n.fraction, exponent := n.exponent } := by
    rw [← literal.unsigned]
  have letters : n.text = n.whole ++ n.fractionText ++ n.exponentText := (List.append_assoc ..).symm
  rw [letters]
  cases point : n.fraction with
  | none =>
    have pointless : n.fractionText = [] := by rw [Numeral.fractionText, point]
    rw [pointless] at fraction ⊢
    cases power : n.exponent with
    | none => simp [point, power] at float
    | some e =>
      rw [point, power] at numeral
      simp only [point, power, List.nil_append, Option.map_none, Option.map_some] at fraction exponent
      simp [number, fraction, exponent, ← numeral]
  | some ds =>
    have pointed : n.fractionText = '.' :: ds := by rw [Numeral.fractionText, point]
    simp only [point, Option.map_some, pointed, List.cons_append] at fraction
    cases power : n.exponent with
    | none =>
      have powerless : n.exponentText = [] := by rw [Numeral.exponentText, power]
      rw [point, power] at numeral
      simp only [power, Option.map_none] at exponent
      rw [powerless, List.nil_append] at exponent fraction ⊢
      simp [pointed, number, fraction, exponent, ← numeral]
    | some e =>
      rw [point, power] at numeral
      simp only [power, Option.map_some] at exponent
      simp [pointed, number, fraction, exponent, ← numeral]

/-- The letters of a numeral are one token. -/
theorem taken_text (literal : n.Literal) (stops : Stops rest) :
    Taken cut n.text (.float n.nearest) rest := by
  have read := number_text literal stops
  have ends := noDigit_fractionText (n := n) (noDigit_exponentText (n := n) stops.noDigit)
  obtain ⟨full, all⟩ := literal.whole
  rw [Numeral.text] at read ⊢
  generalize n.whole = digits at full all read
  cases digits with
  | nil => exact absurd rfl full
  | cons c digits =>
    obtain ⟨digit, others⟩ := List.forall_mem_cons.mp all
    obtain ⟨taken, left⟩ := Stops.takeWhile_append others ends
    have part : isNamePart c = true := by simp [isNamePart, Char.isAlphanum, digit]
    refine ⟨c, digits ++ (n.fractionText ++ n.exponentText), rfl, isBlank_of_isNamePart part, ?_⟩
    rw [cut, if_neg (by rw [not_start_of_digit digit]; exact Bool.false_ne_true), if_pos digit,
      List.append_assoc, List.append_assoc, taken, left]
    exact read

/-- Different numerals have different texts. -/
theorem text_injective (literal : n.Literal) (literal' : m.Literal) (same : n.text = m.text) : n = m := by
  have nothing : NoDigit [] := Stops.nil.noDigit
  have behind {n : Numeral} (literal : n.Literal) :=
    Stops.takeWhile_append literal.whole.2
      (noDigit_fractionText (n := n) (noDigit_exponentText (n := n) nothing))
  have fraction := fraction?_fractionText literal .nil
  have fraction' := fraction?_fractionText literal' .nil
  have exponent := exponent?_exponentText (n := n) .nil
  have exponent' := exponent?_exponentText (n := m) .nil
  simp only [List.append_nil] at behind fraction fraction' exponent exponent'
  have whole : n.whole = m.whole := by
    rw [← (behind literal).1, ← (behind literal').1]
    exact congrArg (List.takeWhile Char.isDigit) same
  have others : n.fractionText ++ n.exponentText = m.fractionText ++ m.exponentText := by
    rw [Numeral.text, Numeral.text, whole] at same
    exact List.append_cancel_left same
  have fractions : n.fraction = m.fraction := by
    have found := fraction.symm.trans ((congrArg fraction? others).trans fraction')
    have digits := congrArg (Option.map Prod.fst) found
    simpa [Function.comp_def] using digits
  have exponents : n.exponent = m.exponent := by
    have points : n.fractionText = m.fractionText := by
      rw [Numeral.fractionText, fractions, Numeral.fractionText]
    rw [points] at others
    have found := exponent.symm.trans
      ((congrArg exponent? (List.append_cancel_left others)).trans exponent')
    have powers := congrArg (Option.map fun read => read.2.1) found
    simpa [Function.comp_def] using powers
  have signs := literal.unsigned.trans literal'.unsigned.symm
  cases n
  cases m
  simp only at whole fractions exponents signs
  rw [whole, fractions, exponents, signs]

end Lexer

theorem digitsValue_append (first last : List Char) :
    digitsValue (first ++ last) = digitsValue first * 10 ^ last.length + digitsValue last := by
  have split : digitsValue (first ++ last) = Nat.ofDigitChars 10 last (digitsValue first) :=
    Nat.ofDigitChars_append 0
  rw [split, Nat.ofDigitChars_eq_ofDigitChars_zero, Nat.mul_comm]
  rfl

theorem digitsValue_zeros (n : ℕ) : digitsValue (Layout.zeros n) = 0 :=
  Nat.ofDigitChars_replicate_zero.trans (Nat.mul_zero _)

namespace Layout

variable {digits : List Char} {position : Int}

theorem zeros_isDigit {n : ℕ} : ∀ c ∈ zeros n, c.isDigit = true := by
  intro c member
  rw [List.eq_of_mem_replicate member]
  rfl

/-- A text that a numeral has, with the value of some digits whose point is moved to a position. -/
def Spells (text digits : List Char) (position : Int) : Prop :=
  ∃ n : Numeral, n.Literal ∧ text = n.text ∧
    n.value = digitsValue digits * 10 ^ (position - digits.length)

/-- Digits with a point between them. -/
theorem spells_point {whole fraction : List Char} (full : whole ≠ []) (full' : fraction ≠ [])
    (all : ∀ c ∈ whole ++ fraction, c.isDigit = true)
    (value : (digitsValue (whole ++ fraction) : ℚ) * 10 ^ (0 - (fraction.length : Int)) =
      digitsValue digits * 10 ^ (position - digits.length)) :
    Spells (whole ++ '.' :: fraction) digits position := by
  obtain ⟨before, behind⟩ := List.forall_mem_append.mp all
  refine ⟨⟨false, whole, some fraction, none⟩, ⟨rfl, ⟨full, before⟩, ?_, rfl⟩, ?_, value⟩
  · rintro _ ⟨⟩
    exact ⟨full', behind⟩
  · simp [Numeral.text, Numeral.fractionText, Numeral.exponentText]

theorem place_spells (full : digits ≠ []) (all : ∀ c ∈ digits, c.isDigit = true) (position : Int) :
    Spells (place true digits position) digits position := by
  have zero : ∀ c ∈ ['0'], c.isDigit = true := List.forall_mem_singleton.mpr rfl
  have padding (n : ℕ) : (zeros n).length = n := List.length_replicate
  simp only [place, ↓reduceIte]
  split
  · rename_i small
    refine spells_point (List.cons_ne_nil _ _) (List.append_ne_nil_of_right_ne_nil _ full)
      (List.forall_mem_append.mpr ⟨zero, List.forall_mem_append.mpr ⟨zeros_isDigit, all⟩⟩) ?_
    have none : digitsValue ['0'] = 0 := rfl
    rw [digitsValue_append, digitsValue_append, none, digitsValue_zeros, Nat.zero_mul, Nat.zero_mul,
      Nat.zero_add, Nat.zero_add, List.length_append, padding]
    congr 2
    omega
  · split
    · rename_i large fits
      refine spells_point (List.append_ne_nil_of_left_ne_nil full _) (List.cons_ne_nil _ _)
        (List.forall_mem_append.mpr ⟨List.forall_mem_append.mpr ⟨all, zeros_isDigit⟩, zero⟩) ?_
      have tens : digitsValue ((digits ++ zeros (position.toNat - digits.length)) ++ ['0']) =
          digitsValue digits * 10 ^ (position.toNat - digits.length) * 10 := by
        rw [digitsValue_append, digitsValue_append, digitsValue_zeros, padding]
        rfl
      have ten : (10 : ℚ) ≠ 0 := by norm_num
      rw [tens, List.length_singleton, Nat.cast_one, zero_sub, zpow_neg_one]
      push_cast
      rw [mul_inv_cancel_right₀ ten, ← zpow_natCast]
      congr 2
      omega
    · rename_i large long
      have joined : digits.take position.toNat ++ digits.drop position.toNat = digits :=
        List.take_append_drop _ _
      refine spells_point (by simp [full]; omega) (by simp; omega) (joined.symm ▸ all) ?_
      rw [joined, List.length_drop]
      congr 2
      omega

theorem scale_spells (full : digits ≠ []) (all : ∀ c ∈ digits, c.isDigit = true) (position : Int) :
    Spells (scale false digits position) digits position := by
  unfold scale
  split
  · rename_i d e rest
    obtain ⟨first, others⟩ := List.forall_mem_cons.mp all
    refine ⟨⟨false, [d], some (e :: rest), some (position - 1)⟩,
      ⟨rfl, ⟨List.cons_ne_nil _ _, by simpa using first⟩, ?_, rfl⟩, rfl, ?_⟩
    · rintro _ ⟨⟩
      exact ⟨List.cons_ne_nil _ _, others⟩
    · simp only [Numeral.value, Option.getD_some, List.singleton_append, List.length_cons]
      congr 2
      push_cast
      ring
  · rename_i short
    refine ⟨⟨false, digits, none, some (position - 1)⟩, ⟨rfl, ⟨full, all⟩, ?_, rfl⟩, rfl, ?_⟩
    · intro _ point
      cases point
    have one : digits.length = 1 := by
      cases digits with
      | nil => exact absurd rfl full
      | cons d rest =>
        cases rest with
        | nil => rfl
        | cons e rest => exact absurd rfl (short d e rest)
    simp [Numeral.value, one]

/-- The digits of a float have the value of its shortest decimal, and its text has a sign in front of them
where the float has one. -/
theorem render_digits (layout : Layout) (x : Float) : ∃ (digits : List Char) (position : Int),
    digits ≠ [] ∧ (∀ c ∈ digits, c.isDigit = true) ∧
    (digitsValue digits : ℚ) * 10 ^ (position - digits.length) =
      ((Parts.ofFloat x).shortest layout.tie).value ∧
    (layout.render x).toList =
      (if (Parts.ofFloat x).negative then ['-'] else []) ++
        if layout.positional position then place layout.pointed digits position
        else scale layout.signed digits position := by
  have rendered : (layout.render x).toList = _ := String.toList_ofList
  generalize (Parts.ofFloat x).shortest layout.tie = d at rendered ⊢
  refine ⟨Nat.toDigits 10 d.digits,
    if d.digits = 0 then 1 else ((Nat.toDigits 10 d.digits).length : Int) + d.exponent,
    Nat.toDigits_ne_nil, Lexer.toDigits_isDigit d.digits, ?_, ?_⟩
  · rw [Lexer.digitsValue_toDigits, Decimal.value]
    split
    · rename_i zero
      simp [zero]
    · rw [add_sub_cancel_left]
  · rw [rendered]
    split <;> rfl

/-- The text of a float without a sign is a numeral with the value of its shortest decimal. -/
theorem render_literal {x : Float} (unsigned : IsUnsigned x) :
    ∃ n : Numeral, n.Literal ∧ (literal.render x).toList = n.text ∧
      n.value = ((Parts.ofFloat x).shortest .up).value := by
  obtain ⟨digits, position, full, all, value, rendered⟩ := render_digits literal x
  rw [unsigned.parts, if_neg Bool.false_ne_true, List.nil_append] at rendered
  change _ = ite _ (place true _ _) (scale false _ _) at rendered
  rw [rendered, show (Tie.up) = literal.tie from rfl, ← value]
  split
  · exact place_spells full all position
  · exact scale_spells full all position

/-- Floats without a sign have different texts. -/
theorem render_injective {x y : Float} (unsigned : IsUnsigned x) (unsigned' : IsUnsigned y)
    (same : literal.render x = literal.render y) : x = y := by
  obtain ⟨n, literal, spelled, value⟩ := render_literal unsigned
  obtain ⟨m, literal', spelled', value'⟩ := render_literal unsigned'
  obtain rfl : n = m := Lexer.text_injective literal literal' (by rw [← spelled, same, spelled'])
  obtain ⟨significand, exponent⟩ := Parts.shortest_injective (Parts.regular_ofFloat x)
    (Parts.regular_ofFloat y) (value.symm.trans value')
  refine Parts.ofFloat_injective ?_
  rw [Parts.mk.injEq]
  exact ⟨unsigned.parts.trans unsigned'.parts.symm, significand, exponent⟩

end Layout

/-- The letters of a float literal are one token. -/
theorem Lexer.legible_float {x : Float} (unsigned : IsUnsigned x) :
    ∃ read, Legible cut (Layout.literal.render x) (.float read) := by
  obtain ⟨n, literal, spelled, -⟩ := Layout.render_literal unsigned
  exact ⟨n.nearest, fun _ stops => spelled ▸ taken_text literal stops⟩

end ChangeWatch
