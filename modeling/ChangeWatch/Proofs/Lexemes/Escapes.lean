import ChangeWatch.Proofs.Lexemes.Codes
import ChangeWatch.Proofs.Lexemes.Longest
import ChangeWatch.Proofs.Lexemes.Places

/-!
Which texts in quotes are tokens. A text of the patterns is one exactly when there is a code behind each of
its `\u`, so it may be refused although its quotes are closed. Where a refused text stands, the lexer reports
its letters and the place they start; what stands in front of it is cut as it is alone.
-/
namespace ChangeWatch.Lexer

open scoped Computability

variable {c quote : Char} {offset : Nat} {s front body letters before after rest cs : List Char}
  {tokens : List Spanned} {Code : List Char → Char → Prop}

/-- Behind each `\u` of a text in quotes there is a code of the given form. The backslashes that count
are those that no backslash takes. -/
def Coded (quote : Char) (Code : List Char → Char → Prop) (body : List Char) : Prop :=
  ∀ before after, before ∈ (quotable quote)∗ → body = before ++ '\\' :: 'u' :: after →
    ∃ letters rest c, after = letters ++ rest ∧ Code letters c

/-- No `\u` of a text in quotes has a plus sign behind it. -/
def Unsigned (quote : Char) (body : List Char) : Prop :=
  ∀ before after, before ∈ (quotable quote)∗ → body ≠ before ++ '\\' :: 'u' :: '+' :: after

/-!
Which texts can be decoded.
-/

theorem star_quotable_plain (slash : c ≠ '\\') :
    c :: rest ∈ (quotable quote)∗ ↔ c ≠ quote ∧ rest ∈ (quotable quote)∗ := by
  rw [mem_star_quotable]
  constructor
  · rintro (none | ⟨_, _, same, ⟨other, -⟩, parts⟩ | ⟨_, _, same, -⟩)
    · cases none
    · cases same
      exact ⟨other, parts⟩
    · exact absurd (List.cons.inj same).1 slash
  · rintro ⟨other, parts⟩
    exact .inr (.inl ⟨c, rest, rfl, ⟨other, slash⟩, parts⟩)

theorem star_quotable_slash :
    '\\' :: c :: rest ∈ (quotable quote)∗ ↔ c ≠ '\n' ∧ rest ∈ (quotable quote)∗ := by
  rw [mem_star_quotable]
  constructor
  · rintro (none | ⟨_, _, same, ⟨-, slash⟩, -⟩ | ⟨_, _, same, line, parts⟩)
    · cases none
    · cases same
      exact absurd rfl slash
    · cases same
      exact ⟨line, parts⟩
  · rintro ⟨line, parts⟩
    exact .inr (.inr ⟨c, rest, rfl, line, parts⟩)

/-- Letters without a backslash in front of others are parts of their own. -/
theorem star_quotable_append (slash : '\\' ∉ letters) : letters ++ rest ∈ (quotable quote)∗ ↔
    (∀ c ∈ letters, c ≠ quote) ∧ rest ∈ (quotable quote)∗ := by
  induction letters with
  | nil => simp
  | cons c letters ih =>
    obtain ⟨here, behind⟩ := List.forall_mem_cons.mp fun d member => ne_of_mem_of_not_mem member slash
    have behind : '\\' ∉ letters := fun member => behind _ member rfl
    rw [List.cons_append, star_quotable_plain here, ih behind, List.forall_mem_cons, and_assoc]

/-- A letter that is no backslash stands in front of every escape. -/
theorem split_plain (slash : c ≠ '\\') (parts : before ∈ (quotable quote)∗)
    (split : c :: rest = before ++ '\\' :: 'u' :: after) :
    ∃ more ∈ (quotable quote)∗, before = c :: more ∧ rest = more ++ '\\' :: 'u' :: after := by
  cases before with
  | nil => exact absurd (List.cons.inj split).1 slash
  | cons d more =>
    obtain ⟨rfl, behind⟩ := List.cons.inj split
    exact ⟨more, ((star_quotable_plain slash).mp parts).2, rfl, behind⟩

/-- An escape at the start is the first one, or it stands in front of every other. -/
theorem split_slash (parts : before ∈ (quotable quote)∗)
    (split : '\\' :: c :: rest = before ++ '\\' :: 'u' :: after) :
    before = [] ∧ c = 'u' ∧ rest = after ∨
      ∃ more ∈ (quotable quote)∗, before = '\\' :: c :: more ∧ rest = more ++ '\\' :: 'u' :: after := by
  cases before with
  | nil =>
    obtain ⟨-, behind⟩ := List.cons.inj split
    obtain ⟨same, rest⟩ := List.cons.inj behind
    exact .inl ⟨rfl, same, rest⟩
  | cons d before =>
    obtain ⟨same, behind⟩ := List.cons.inj split
    subst same
    cases before with
    | nil =>
      obtain none | ⟨_, _, same, ⟨-, slash⟩, -⟩ | ⟨_, _, same, -⟩ := mem_star_quotable.mp parts
      · cases none
      · cases same
        exact absurd rfl slash
      · cases same
    | cons d more =>
      obtain ⟨rfl, left⟩ := List.cons.inj behind
      exact .inr ⟨more, (star_quotable_slash.mp parts).2, rfl, left⟩

theorem Coded.behind (coded : Coded quote Code (front ++ rest)) (parts : front ∈ (quotable quote)∗) :
    Coded quote Code rest := by
  intro before after inside split
  have outside : front ++ before ∈ (quotable quote)∗ := by
    rw [← kstar_mul_kstar]
    exact Language.append_mem_mul parts inside
  exact coded (front ++ before) after outside (by rw [split, List.append_assoc])

theorem Decodes.coded (slash : ∀ {letters c}, Code letters c → '\\' ∉ letters)
    (decodes : Decodes Code body cs) : Coded quote Code body := by
  induction decodes with
  | nil =>
    intro before after _ split
    exact absurd split.symm (List.append_ne_nil_of_right_ne_nil before (List.cons_ne_nil _ _))
  | plain plain _ ih =>
    intro before after parts split
    obtain ⟨more, inside, -, behind⟩ := split_plain plain parts split
    exact ih more after inside behind
  | letter other _ ih =>
    intro before after parts split
    obtain ⟨-, same, -⟩ | ⟨more, inside, -, behind⟩ := split_slash parts split
    · exact absurd same other
    · exact ih more after inside behind
  | code code _ ih =>
    intro before after parts split
    obtain ⟨-, -, same⟩ | ⟨more, inside, -, behind⟩ := split_slash parts split
    · exact ⟨_, _, _, same.symm, code⟩
    -- The other escape starts with a backslash, so it stands behind the code.
    obtain ⟨left, rfl, others⟩ | ⟨left, rfl, others⟩ := List.append_eq_append_iff.mp behind
    · exact ih left after ((star_quotable_append (slash code)).mp inside).2 others
    · cases left with
      | nil => exact ih [] after (Language.nil_mem_kstar _) others.symm
      | cons d left =>
        obtain ⟨rfl, -⟩ := List.cons.inj others
        exact absurd (List.mem_append_right more List.mem_cons_self) (slash code)

theorem Coded.decodes (slash : ∀ {letters c}, Code letters c → '\\' ∉ letters)
    (parts : body ∈ (quotable quote)∗) (coded : Coded quote Code body) : ∃ cs, Decodes Code body cs := by
  induction size : body.length using Nat.strongRecOn generalizing body with
  | ind size ih =>
    subst size
    obtain rfl | ⟨c, rest, rfl, ⟨mark, plain⟩, behind⟩ | ⟨c, rest, rfl, line, behind⟩ :=
      mem_star_quotable.mp parts
    · exact ⟨[], .nil⟩
    · have here : [c] ∈ (quotable quote)∗ :=
        (star_quotable_plain plain).mpr ⟨mark, Language.nil_mem_kstar _⟩
      obtain ⟨cs, decodes⟩ := ih rest.length (Nat.lt_succ_self _) behind (coded.behind here) rfl
      exact ⟨c :: cs, .plain plain decodes⟩
    · by_cases other : c = 'u'
      · subst other
        obtain ⟨letters, rest, c, rfl, code⟩ := coded [] rest (Language.nil_mem_kstar _) rfl
        obtain ⟨marks, behind⟩ := (star_quotable_append (slash code)).mp behind
        have here : '\\' :: 'u' :: letters ∈ (quotable quote)∗ := by
          have inside := (star_quotable_append (slash code)).mpr ⟨marks, Language.nil_mem_kstar _⟩
          rw [List.append_nil] at inside
          exact star_quotable_slash.mpr ⟨line, inside⟩
        have fewer : rest.length < ('\\' :: 'u' :: (letters ++ rest)).length := by
          simp only [List.length_cons, List.length_append]
          omega
        obtain ⟨cs, decodes⟩ := ih rest.length fewer behind (coded.behind here) rfl
        exact ⟨c :: cs, .code code decodes⟩
      · have here : ['\\', c] ∈ (quotable quote)∗ :=
          star_quotable_slash.mpr ⟨line, Language.nil_mem_kstar _⟩
        have fewer : rest.length < ('\\' :: c :: rest).length := Nat.lt_add_of_pos_right Nat.two_pos
        obtain ⟨cs, decodes⟩ := ih rest.length fewer behind (coded.behind here) rfl
        exact ⟨_, .letter other decodes⟩

theorem unescape_isSome_iff (parts : body ∈ (quotable quote)∗) :
    (∃ cs, unescape body = some cs) ↔ Coded quote TakenCode body := by
  simp only [unescape_decodes]
  constructor
  · rintro ⟨cs, decodes⟩
    exact decodes.coded TakenCode.slash
  · exact Coded.decodes TakenCode.slash parts

/-- The codes that are taken are hexadecimal digits alone where no plus sign is the first letter of one. -/
theorem coded_fourDigits_iff :
    Coded quote FourDigits body ↔ Coded quote TakenCode body ∧ Unsigned quote body := by
  constructor
  · intro coded
    refine ⟨fun before after parts split => ?_, fun before after parts split => ?_⟩
    · obtain ⟨letters, rest, c, same, code⟩ := coded before after parts split
      exact ⟨letters, rest, c, same, .inl code⟩
    · obtain ⟨letters, rest, c, same, four, hex⟩ := coded before ('+' :: after) parts split
      cases letters with
      | nil => cases four
      | cons d letters =>
        obtain ⟨rfl, -⟩ := List.cons.inj same
        exact hex.not_mem (by decide) List.mem_cons_self
  · rintro ⟨coded, unsigned⟩ before after parts split
    obtain ⟨letters, rest, c, rfl, four | ⟨digits, rfl, -⟩⟩ := coded before after parts split
    · exact ⟨letters, rest, c, rfl, four⟩
    · exact absurd split (unsigned before (digits ++ rest) parts)

/-!
Where a text in quotes stands among others.
-/

/-- Steps that are left over change nothing. -/
theorem cutAll_enough {steps : Nat} (enough : s.length ≤ steps) :
    cutAll steps offset s = tokenizeFrom offset s := by
  have same (more : Nat) : ∀ {steps offset : Nat} {s : List Char},
      s.length ≤ steps → s.length ≤ more → cutAll steps offset s = cutAll more offset s := by
    induction more with
    | zero =>
      intro steps offset s _ none
      obtain rfl := List.length_eq_zero_iff.mp (Nat.le_zero.mp none)
      cases steps <;> rfl
    | succ more ih =>
      intro steps offset s enough enough'
      cases s with
      | nil => cases steps <;> rfl
      | cons c s =>
        obtain ⟨steps, rfl⟩ : ∃ fewer, steps = fewer + 1 :=
          Nat.exists_eq_succ_of_ne_zero (Nat.ne_of_gt (Nat.lt_of_lt_of_le (Nat.succ_pos _) enough))
        have left := Nat.le_of_succ_le_succ enough
        have left' := Nat.le_of_succ_le_succ enough'
        rw [cutAll, cutAll, ih left left']
        split
        · rfl
        split
        · rfl
        · rename_i taken
          have less := cut_less taken
          simp only [ih (Nat.le_trans less left) (Nat.le_trans less left')]
  exact same s.length enough (Nat.le_refl _)

theorem tokenizeFrom_blank (blank : isBlank c = true) :
    tokenizeFrom offset (c :: s) = tokenizeFrom (offset + c.utf8Size) s := by
  rw [tokenizeFrom, List.length_cons, cutAll, if_pos blank, ← tokenizeFrom]

theorem tokenizeFrom_invalid (ink : isBlank c = false) (refused : cut c s = .invalid letters) :
    tokenizeFrom offset (c :: s) = .error (.invalidToken (String.ofList letters) offset) := by
  rw [tokenizeFrom, List.length_cons, cutAll, if_neg (by rw [ink]; exact Bool.false_ne_true), refused]

theorem tokenizeFrom_token {token : Token} (ink : isBlank c = false)
    (taken : cut c s = .token token letters rest) : tokenizeFrom offset (c :: s) =
      (tokenizeFrom (offset + byteSize letters) rest).map
        ({ token, start := offset, stop := offset + byteSize letters } :: ·) := by
  rw [tokenizeFrom, List.length_cons, cutAll, if_neg (by rw [ink]; exact Bool.false_ne_true), taken]
  simp only [cutAll_enough (cut_less taken)]
  cases tokenizeFrom (offset + byteSize letters) rest <;> rfl

/-- Letters that go on with no token are cut as they are without the text in front of them. -/
theorem tokenizeFrom_append (apart : Apart rest) (accepted : tokenizeFrom offset front = .ok tokens) :
    tokenizeFrom offset (front ++ rest) =
      (tokenizeFrom (offset + byteSize front) rest).map (tokens ++ ·) := by
  induction size : front.length using Nat.strongRecOn generalizing offset front tokens with
  | ind size ih =>
    subst size
    cases front with
    | nil =>
      cases accepted
      rw [List.nil_append, byteSize, Nat.add_zero]
      cases tokenizeFrom offset rest <;> rfl
    | cons c s =>
      cases blank : isBlank c with
      | true =>
        rw [tokenizeFrom_blank blank] at accepted
        rw [List.cons_append, tokenizeFrom_blank blank, ih s.length (Nat.lt_succ_self _) accepted rfl,
          byteSize, Nat.add_assoc]
      | false =>
        cases cut : cut c s with
        | invalid letters =>
          rw [tokenizeFrom_invalid blank cut] at accepted
          cases accepted
        | token token letters after =>
          rw [tokenizeFrom_token blank cut] at accepted
          obtain ⟨behind, ran, rfl⟩ : ∃ behind,
              tokenizeFrom (offset + byteSize letters) after = .ok behind ∧
                { token, start := offset, stop := offset + byteSize letters } :: behind = tokens := by
            cases found : tokenizeFrom (offset + byteSize letters) after with
            | error fault =>
              rw [found] at accepted
              cases accepted
            | ok behind =>
              rw [found] at accepted
              cases accepted
              exact ⟨behind, rfl, rfl⟩
          have less := Nat.lt_succ_of_le (cut_less cut)
          obtain ⟨more, rfl, rfl, -⟩ := cut_means cut
          have size : byteSize (c :: (more ++ after)) = byteSize (c :: more) + byteSize after := by
            rw [← List.cons_append, byteSize_append]
          rw [List.cons_append, tokenizeFrom_token blank (cut_append apart cut),
            ih after.length less ran rfl, size, Nat.add_assoc]
          cases tokenizeFrom (offset + (byteSize (c :: more) + byteSize after)) rest <;> rfl

/-- Quotes go on with no token in front of them. -/
theorem apart_quote (mark : quote = '"' ∨ quote = '\'') : Apart (quote :: rest) := by
  rcases mark with rfl | rfl
  · exact .cons (by decide) (by decide)
  · exact .cons (by decide) (by decide)

theorem isBlank_quote (mark : quote = '"' ∨ quote = '\'') : isBlank quote = false := by
  rcases mark with rfl | rfl <;> rfl

theorem cut_quoted_body (mark : quote = '"' ∨ quote = '\'') (parts : body ∈ (quotable quote)∗)
    (rest : List Char) :
    cut quote (body ++ quote :: rest) = match unescape body with
      | some cs => .token (.str (String.ofList cs)) (quote :: (body ++ [quote])) rest
      | none => .invalid (quote :: (body ++ [quote])) := by
  cases read : unescape body with
  | some cs => simp only [cut_quoted mark, literal, literalBody_of_parts (slash_ne mark) parts, read]
  | none => simp only [cut_quoted mark, literal, literalBody_of_parts (slash_ne mark) parts, read]

/-- A text in quotes is refused where it stands, or it is one token. -/
theorem tokenizeFrom_quoted (mark : quote = '"' ∨ quote = '\'') (parts : body ∈ (quotable quote)∗)
    (accepted : tokenizeFrom offset front = .ok tokens) :
    tokenizeFrom offset (front ++ quote :: (body ++ quote :: rest)) = match unescape body with
      | some cs =>
        let start := offset + byteSize front
        let stop := start + byteSize (quote :: (body ++ [quote]))
        (tokenizeFrom stop rest).map fun others =>
          tokens ++ { token := .str (String.ofList cs), start, stop } :: others
      | none =>
        .error (.invalidToken (String.ofList (quote :: (body ++ [quote]))) (offset + byteSize front)) := by
  have first := cut_quoted_body mark parts rest
  rw [tokenizeFrom_append (apart_quote mark) accepted]
  cases read : unescape body with
  | some cs =>
    rw [read] at first
    simp only [tokenizeFrom_token (isBlank_quote mark) first]
    cases tokenizeFrom (offset + byteSize front + byteSize (quote :: (body ++ [quote]))) rest <;> rfl
  | none =>
    rw [read] at first
    rw [tokenizeFrom_invalid (isBlank_quote mark) first]
    rfl

theorem Decodes.mono {Code' : List Char → Char → Prop}
    (weaker : ∀ {letters c}, Code letters c → Code' letters c) (decodes : Decodes Code body cs) :
    Decodes Code' body cs := by
  induction decodes with
  | nil => exact .nil
  | plain slash _ ih => exact .plain slash ih
  | letter other _ ih => exact .letter other ih
  | code code _ ih => exact .code (weaker code) ih

/-- Where no code has a sign, texts are decoded with four digits behind each `\u`. -/
theorem decodes_fourDigits_iff (parts : body ∈ (quotable quote)∗) :
    Decodes FourDigits body cs ↔ unescape body = some cs ∧ Unsigned quote body := by
  have slash {letters : List Char} {c : Char} (four : FourDigits letters c) : '\\' ∉ letters :=
    TakenCode.slash (.inl four)
  constructor
  · intro decodes
    have coded : Coded quote FourDigits body := decodes.coded slash
    exact ⟨(unescape_decodes body).mpr (decodes.mono .inl), (coded_fourDigits_iff.mp coded).2⟩
  · rintro ⟨read, unsigned⟩
    have taken := (unescape_isSome_iff parts).mp ⟨cs, read⟩
    obtain ⟨others, decodes⟩ := (coded_fourDigits_iff.mpr ⟨taken, unsigned⟩).decodes slash parts
    have same := (unescape_decodes body).mpr (decodes.mono .inl)
    cases read.symm.trans same
    exact decodes

theorem tokenize_accepted {location : String}
    (accepted : tokenize (String.ofList front) location = .ok tokens) :
    tokenizeFrom 0 front = .ok tokens := by
  rw [tokenize, String.toList_ofList] at accepted
  cases ran : tokenizeFrom 0 front with
  | ok known =>
    rw [ran] at accepted
    exact congrArg Except.ok (Except.ok.inj accepted)
  | error fault =>
    rw [ran] at accepted
    cases accepted

/-- A text in quotes is read exactly when there is a code behind each of its `\u`, and then as what its
escapes stand for; the codes are four hexadecimal digits, or a plus sign and three of them. Without such a
sign, the texts that are read are those with four digits everywhere. A text that is not read is reported
where it stands. -/
theorem escapes_resolved (mark : quote = '"' ∨ quote = '\'') (parts : body ∈ (quotable quote)∗) :
    ((∃ cs, unescape body = some cs) ↔ Coded quote TakenCode body) ∧
    (∀ cs, unescape body = some cs ↔ Decodes TakenCode body cs) ∧
    (Coded quote FourDigits body ↔ (∃ cs, unescape body = some cs) ∧ Unsigned quote body) ∧
    (∀ cs, Decodes FourDigits body cs ↔ unescape body = some cs ∧ Unsigned quote body) ∧
    ∀ front tokens rest location, tokenize (String.ofList front) location = .ok tokens →
      (unescape body = none → tokenize (String.ofList (front ++ quote :: (body ++ quote :: rest))) location =
        .error {
          fault := .invalidToken (String.ofList (quote :: (body ++ [quote]))) (byteSize front)
          input := String.ofList (front ++ quote :: (body ++ quote :: rest))
          location }) ∧
      ∀ cs, unescape body = some cs →
        tokenize (String.ofList (front ++ quote :: (body ++ [quote]))) location = .ok (tokens ++ [{
          token := .str (String.ofList cs)
          start := byteSize front
          stop := byteSize front + byteSize (quote :: (body ++ [quote])) }]) := by
  refine ⟨unescape_isSome_iff parts, fun cs => unescape_decodes body, ?_,
    fun cs => decodes_fourDigits_iff parts,
    fun front tokens rest location accepted => ⟨fun refused => ?_, fun cs read => ?_⟩⟩
  · rw [coded_fourDigits_iff, unescape_isSome_iff parts]
  · rw [tokenize, String.toList_ofList, tokenizeFrom_quoted mark parts (tokenize_accepted accepted), refused]
    simp only [Nat.zero_add]
  · have ended (offset : Nat) : tokenizeFrom offset [] = .ok [] := rfl
    rw [tokenize, String.toList_ofList, tokenizeFrom_quoted mark parts (tokenize_accepted accepted), read]
    simp only [Nat.zero_add, ended]
    rfl

namespace Samples

/-- A backslash, the letter u, a letter by its code and one by a letter: `\\u\u00e9\t`. -/
def mixed : List Char := ['\\', '\\', 'u', '\\', 'u', '0', '0', 'e', '9', '\\', 't']

/-- The number of half a pair of units, which is no character: `\ud800`. -/
def half : List Char := ['\\', 'u', 'd', '8', '0', '0']

/-- A sign in the place of a digit: `\u+041`. -/
def signed : List Char := ['\\', 'u', '+', '0', '4', '1']

/-- The first tokens of `a + `. -/
def opened : List Spanned :=
  [{ token := .ident "a", start := 0, stop := 1 }, { token := .symbol .plus, start := 2, stop := 3 }]

end Samples

open Samples in
theorem escapes_resolved_mixed :
    tokenize "a + '\\\\u\\u00e9\\t'" "view" =
        .ok (opened ++ [{ token := .str "\\ué\t", start := 4, stop := 17 }]) ∧
      tokenize "a + '\\ud800' + b" "view" = .error {
        fault := .invalidToken "'\\ud800'" 4, input := "a + '\\ud800' + b", location := "view" } := by
  have front : tokenize (String.ofList "a + ".toList) "view" = .ok opened := by decide +kernel
  have mixed_parts : mixed ∈ (quotable '\'')∗ := by
    simp [mixed, star_quotable_slash, star_quotable_plain, Language.nil_mem_kstar]
  have half_parts : half ∈ (quotable '\'')∗ := by
    simp [half, star_quotable_slash, star_quotable_plain, Language.nil_mem_kstar]
  obtain ⟨-, -, -, -, tokens⟩ := escapes_resolved (.inr rfl) mixed_parts
  obtain ⟨-, -, -, -, tokens'⟩ := escapes_resolved (.inr rfl) half_parts
  constructor
  · exact (tokens _ _ [] _ front).2 ['\\', 'u', 'é', '\t'] rfl
  · exact (tokens' _ _ " + b".toList _ front).1 rfl

open Samples in
/-- A text with a sign in a code is read, though no four digits stand there. -/
theorem sign_taken_for_digit : signed ∈ (quotable '\'')∗ ∧ unescape signed = some ['A'] ∧
    tokenize "'\\u+041'" "view" = .ok [{ token := .str "A", start := 0, stop := 8 }] ∧
    ¬ Coded '\'' FourDigits signed := by
  refine ⟨?_, rfl, by decide +kernel, fun coded => ?_⟩
  · simp [signed, star_quotable_slash, star_quotable_plain, Language.nil_mem_kstar]
  · exact (coded_fourDigits_iff.mp coded).2 [] ['0', '4', '1'] (Language.nil_mem_kstar _) rfl

end ChangeWatch.Lexer
