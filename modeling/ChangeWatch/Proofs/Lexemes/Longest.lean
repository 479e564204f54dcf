import ChangeWatch.Proofs.Lexemes.Numbers
import ChangeWatch.Proofs.Unparsing.Accepted
import ChangeWatch.Proofs.Unparsing.Behind

/-!
The lexer takes the longest token: what it cuts is a word of a pattern and means the token, and no longer
word of any pattern stands in the same place. Letters that mean a token are cut as this token when they
stand alone.
-/
namespace ChangeWatch.Lexer

open scoped Computability

variable {c quote : Char} {s letters rest others body word digits whole : List Char} {token : Token}

/-- A text in quotes is taken up to the first quote that no backslash takes. -/
theorem literalBody_parts (s : List Char) : ∀ {body rest : List Char},
    literalBody quote s = (body, some rest) → s = body ++ quote :: rest ∧ body ∈ (quotable quote)∗ := by
  fun_induction literalBody quote s with
  | case1 | case2 | case5 => rintro _ _ ⟨⟩
  | case3 d s line body behind found ih =>
    rintro _ rest ⟨⟩
    obtain ⟨rfl, parts⟩ := ih found
    exact ⟨rfl, mem_star_quotable.mpr (.inr (.inr ⟨d, body, rfl, line, parts⟩))⟩
  | case4 s =>
    rintro _ _ ⟨⟩
    exact ⟨rfl, Language.nil_mem_kstar _⟩
  | case6 c s _ other plain body behind found ih =>
    rintro _ rest ⟨⟩
    obtain ⟨rfl, parts⟩ := ih found
    exact ⟨rfl, mem_star_quotable.mpr (.inr (.inl ⟨c, body, rfl, ⟨other, plain⟩, parts⟩))⟩

theorem literalBody_of_parts (slash : quote ≠ '\\') (parts : body ∈ (quotable quote)∗) (rest : List Char) :
    literalBody quote (body ++ quote :: rest) = (body, some rest) := by
  obtain ⟨pieces, rfl, each⟩ := Language.mem_kstar.mp parts
  clear parts
  induction pieces with
  | nil =>
    rw [List.flatten_nil, List.nil_append, literalBody.eq_3 _ _ _ fun _ _ same => absurd same slash,
      if_pos rfl]
  | cons piece pieces ih =>
    obtain ⟨here, behind⟩ := List.forall_mem_cons.mp each
    rw [List.flatten_cons, List.append_assoc]
    rcases here with ⟨c, plain, rfl⟩ | escape
    · simp only [Bool.and_eq_true, bne_iff_ne] at plain
      rw [List.singleton_append, literalBody.eq_3 _ _ _ fun _ _ same => absurd same plain.2,
        if_neg plain.1, if_neg plain.2, ih behind]
      rfl
    · obtain ⟨_, _, rfl, same, d, line, rfl⟩ := mem_one_mul.mp escape
      rw [beq_iff_eq.mp same, List.cons_append, List.cons_append, List.nil_append, literalBody,
        if_neg (bne_iff_ne.mp line), ih behind]
      rfl

theorem slash_ne (mark : quote = '"' ∨ quote = '\'') : quote ≠ '\\' := by
  rcases mark with rfl | rfl <;> decide

theorem literal_means (mark : quote = '"' ∨ quote = '\'')
    (taken : literal quote s = .token token letters rest) :
    ∃ more, letters = quote :: more ∧ s = more ++ rest ∧ Means letters token := by
  unfold literal at taken
  split at taken
  · cases taken
  · rename_i body behind found
    obtain ⟨rfl, parts⟩ := literalBody_parts s found
    split at taken
    · rename_i read
      cases taken
      exact ⟨body ++ [quote], rfl, by simp, .quoted mark parts read⟩
    · cases taken

/-- A quoted text in front of others is the one that is taken. -/
theorem literal_of_parts (mark : quote = '"' ∨ quote = '\'') (parts : body ∈ (quotable quote)∗)
    (taken : literal quote (body ++ quote :: others) = .token token letters rest) :
    letters = quote :: (body ++ [quote]) := by
  rw [literal, literalBody_of_parts (slash_ne mark) parts] at taken
  simp only at taken
  split at taken <;> cases taken
  rfl

theorem word_means (matched : letters ∈ Pattern.name.language) :
    Means letters (Lexer.word (String.ofList letters)) := by
  have spelled {text : String} (same : String.ofList letters = text) : letters = text.toList := by
    rw [← same, String.toList_ofList]
  unfold Lexer.word
  split
  · rename_i same
    exact spelled same ▸ .keyword .true
  split
  · rename_i same
    exact spelled same ▸ .keyword .false
  split
  · rename_i same
    exact spelled same ▸ .keyword .null
  split
  · rename_i same
    exact spelled same ▸ .keyword .undefined
  · refine .name matched fun keyword same => ?_
    have named : String.ofList letters = keyword.spelling := by rw [same, String.ofList_toList]
    cases keyword <;> contradiction

theorem integer_means (all : letters ∈ many Char.isDigit) : Means letters (integer letters) := by
  unfold integer
  cases fits : int64? (digitsValue letters) with
  | none => exact .large all fits
  | some n => exact .whole all fits

theorem symbol_means (taken : symbol c s = .token token letters rest) :
    ∃ more, letters = c :: more ∧ s = more ++ rest ∧ Means letters token := by
  have spelled (sign : Symbol) (letters : List Char) (same : sign.spelling.toList = letters) :
      Means letters (.symbol sign) := same ▸ .symbol sign
  unfold symbol at taken
  split at taken
  case h_28 => cases taken
  all_goals
    cases taken
    exact ⟨_, rfl, rfl, spelled _ _ (by simp [Symbol.spelling])⟩

/-- What is cut are letters from the first one on, and they mean the token. -/
theorem cut_means (taken : cut c s = .token token letters rest) :
    ∃ more, letters = c :: more ∧ s = more ++ rest ∧ Means letters token := by
  unfold cut at taken
  split at taken
  · rename_i starts
    cases taken
    have parts : ∀ d ∈ s.takeWhile isNamePart, isNamePart d = true := fun d => List.mem_takeWhile_imp
    have matched := mem_name.mpr ⟨c, _, rfl, starts, parts⟩
    exact ⟨_, rfl, List.takeWhile_append_dropWhile.symm, word_means matched⟩
  split at taken
  · rename_i digit
    obtain ⟨split, all, ends⟩ := span_iff.mp ⟨Eq.refl (s.takeWhile Char.isDigit), rfl⟩
    have all : ∀ d ∈ c :: s.takeWhile Char.isDigit, d.isDigit = true :=
      List.forall_mem_cons.mpr ⟨digit, all⟩
    have digits := mem_many.mpr ⟨List.cons_ne_nil _ _, all⟩
    rcases number_taken taken with ⟨same, rfl, rfl, -⟩ | ⟨behind, _, _, left, rfl, floats, -, rfl⟩
    · exact ⟨_, rfl, split, same ▸ integer_means digits⟩
    · refine ⟨s.takeWhile Char.isDigit ++ behind, rfl, ?_, .float (.inl digits) floats⟩
      rw [List.append_assoc, ← left, ← split]
  split at taken
  · rename_i mark
    exact literal_means mark taken
  split at taken
  · rename_i point
    obtain ⟨-, pointed⟩ := point
    rcases number_taken taken with ⟨-, -, -, none⟩ | ⟨behind, fraction, _, left, rfl, floats, same, rfl⟩
    · rw [none] at pointed
      cases pointed
    · have some : fraction ≠ none := by
        rw [same, ne_eq, Option.map_eq_none_iff, ← ne_eq, ← Option.isSome_iff_ne_none]
        exact pointed
      obtain ⟨d, more, rfl⟩ := List.exists_cons_of_ne_nil floats.ne_nil
      obtain ⟨rfl, split⟩ := List.cons.inj left
      exact ⟨more, rfl, split, .float (.inr ⟨rfl, some⟩) floats⟩
  · exact symbol_means taken

theorem cut_sign (starts : isNameStart c = false) (digit : c.isDigit = false) (mark : c ∉ ['"', '\'', '.'])
    (s : List Char) : cut c s = symbol c s := by
  simp only [List.mem_cons, List.not_mem_nil, or_false, not_or] at mark
  rw [cut, if_neg (by simp [starts]), if_neg (by simp [digit]), if_neg (by simp [mark]),
    if_neg fun here => mark.2.2 here.1]

/-- A symbol in front of others is taken, or a longer one. -/
theorem symbol_longest (sign : Symbol) (split : c :: s = sign.spelling.toList ++ others)
    (taken : cut c s = .token token letters rest) : sign.spelling.toList.length ≤ letters.length := by
  have found {size : Nat} {known : Token} {here left : List Char}
      (same : Cut.token known here left = .token token letters rest) (enough : size ≤ here.length) :
      size ≤ letters.length := by
    obtain ⟨-, rfl, -⟩ := Cut.token.inj same
    exact enough
  by_cases short : sign.spelling.toList.length = 1
  · obtain ⟨more, rfl, -⟩ := cut_means taken
    rw [short]
    exact Nat.le_add_left 1 more.length
  cases sign
  case strictEqual | strictNotEqual | lessEqual | greaterEqual | and | or =>
    obtain ⟨rfl, rfl⟩ := List.cons.inj split
    rw [cut_sign (by decide) (by decide) (by decide)] at taken
    exact found taken (Nat.le_refl _)
  -- The letter behind the other two may go on with them.
  case equal =>
    obtain ⟨rfl, rfl⟩ := List.cons.inj split
    rw [cut_sign (by decide) (by decide) (by decide)] at taken
    by_cases goes : ∃ behind, others = '=' :: behind
    · obtain ⟨behind, rfl⟩ := goes
      exact found taken (Nat.le_succ 2)
    · have alone := symbol.eq_2 others fun behind same => goes ⟨behind, same⟩
      exact found (alone.symm.trans taken) (Nat.le_refl 2)
  case notEqual =>
    obtain ⟨rfl, rfl⟩ := List.cons.inj split
    rw [cut_sign (by decide) (by decide) (by decide)] at taken
    by_cases goes : ∃ behind, others = '=' :: behind
    · obtain ⟨behind, rfl⟩ := goes
      exact found taken (Nat.le_succ 2)
    · have alone := symbol.eq_4 others fun behind same => goes ⟨behind, same⟩
      exact found (alone.symm.trans taken) (Nat.le_refl 2)
  all_goals exact absurd rfl short

theorem name_longest (matched : word ∈ Pattern.name.language) (split : c :: s = word ++ others)
    (taken : cut c s = .token token letters rest) : word.length ≤ letters.length := by
  obtain ⟨d, parts, rfl, starts, all⟩ := mem_name.mp matched
  obtain ⟨rfl, rfl⟩ := List.cons.inj split
  rw [cut, if_pos starts] at taken
  cases taken
  exact Nat.succ_le_succ (length_le_takeWhile all others)

theorem isName_iff {text : String} : isName text = true ↔ text.toList ∈ Pattern.name.language := by
  rw [mem_name, isName]
  cases text.toList with
  | nil => simp
  | cons c parts => simp [List.all_eq_true]

theorem keyword_matched (keyword : Keyword) : keyword.spelling.toList ∈ Pattern.name.language :=
  isName_iff.mp (by cases keyword <;> decide)

/-- A text that starts with digits is cut as a number. -/
theorem cut_digits (all : digits ∈ many Char.isDigit) (split : c :: s = digits ++ others) :
    cut c s = number (digits ++ others.takeWhile Char.isDigit) (others.dropWhile Char.isDigit) := by
  obtain ⟨some, all⟩ := mem_many.mp all
  obtain ⟨d, digits, rfl⟩ := List.exists_cons_of_ne_nil some
  obtain ⟨digit, behind⟩ := List.forall_mem_cons.mp all
  rw [List.cons_append, List.cons.injEq] at split
  obtain ⟨rfl, rfl⟩ := split
  rw [cut, if_neg (by simp [not_start_of_digit digit]), if_pos digit,
    List.takeWhile_append_of_pos behind, List.dropWhile_append_of_pos behind, List.cons_append]

theorem cut_float {fraction : Option (List Char)} {exponent : Option Int}
    (all : digits ∈ many Char.isDigit) (floats : Floats body fraction exponent)
    (split : c :: s = digits ++ (body ++ others)) : cut c s = number digits (body ++ others) := by
  have ends := floats.noDigit others
  obtain ⟨none, left⟩ := span_iff.mpr ⟨(List.nil_append _).symm, List.forall_mem_nil _, ends⟩
  rw [cut_digits all split, none, left, List.append_nil]

/-- A text that starts with a fraction is cut as a number without digits in front. -/
theorem cut_point {fraction : List Char} {exponent : Option Int}
    (floats : Floats body (some fraction) exponent) (split : c :: s = body ++ others) :
    cut c s = number [] (body ++ others) := by
  obtain ⟨behind, rfl, found⟩ := floats.fraction? others
  rw [← split] at found ⊢
  obtain ⟨rfl, -⟩ := List.cons.inj split
  rw [cut, if_neg (by decide), if_neg (by decide), if_neg (by decide), if_pos ⟨rfl, found⟩]

theorem cut_quoted (mark : quote = '"' ∨ quote = '\'') (s : List Char) : cut quote s = literal quote s := by
  rcases mark with rfl | rfl
  · rw [cut, if_neg (by decide), if_neg (by decide), if_pos (by decide)]
  · rw [cut, if_neg (by decide), if_neg (by decide), if_pos (by decide)]

theorem quoted_longest (mark : quote = '"' ∨ quote = '\'') (parts : body ∈ (quotable quote)∗)
    (split : c :: s = quote :: (body ++ [quote]) ++ others)
    (taken : cut c s = .token token letters rest) : (quote :: (body ++ [quote])).length ≤ letters.length := by
  rw [List.cons_append, List.append_assoc, List.singleton_append, List.cons.injEq] at split
  obtain ⟨rfl, rfl⟩ := split
  rw [cut_quoted mark] at taken
  rw [literal_of_parts mark parts taken]

/-- No word of a pattern is longer than what is cut in its place. -/
theorem cut_longest (ink : isBlank c = false) (taken : cut c s = .token token letters rest)
    {pattern : Pattern} (matched : word ∈ pattern.language) (split : c :: s = word ++ others) :
    word.length ≤ letters.length := by
  cases pattern with
  | keyword keyword =>
    obtain rfl : word = _ := matched
    exact name_longest (keyword_matched keyword) split taken
  | symbol sign =>
    obtain rfl : word = _ := matched
    exact symbol_longest sign split taken
  | name => exact name_longest matched split taken
  | whole =>
    rw [cut_digits matched split] at taken
    rcases number_taken taken with ⟨-, rfl, -⟩ | ⟨behind, _, _, -, rfl, -⟩
    · rw [List.length_append]
      exact Nat.le_add_right _ _
    · rw [List.append_assoc, List.length_append]
      exact Nat.le_add_right _ _
  | pointed =>
    obtain ⟨digits, all, body, behind, rfl⟩ := Language.mem_mul.mp matched
    obtain ⟨fraction, power, floats⟩ := mem_fraction.mp behind
    rw [List.append_assoc] at split
    rw [cut_float all floats split] at taken
    rw [List.length_append]
    exact floats.length_le taken
  | fraction =>
    obtain ⟨fraction, power, floats⟩ := mem_fraction.mp matched
    rw [cut_point floats split] at taken
    simpa using floats.length_le taken
  | scaled =>
    obtain ⟨digits, all, body, behind, rfl⟩ := Language.mem_mul.mp matched
    obtain ⟨power, scales⟩ := mem_scale.mp behind
    rw [List.append_assoc] at split
    rw [cut_float all (.scale scales) split] at taken
    rw [List.length_append]
    exact (Floats.scale scales).length_le taken
  | double =>
    obtain ⟨body, rfl, parts⟩ := mem_inQuotes.mp matched
    exact quoted_longest (.inl rfl) parts split taken
  | single =>
    obtain ⟨body, rfl, parts⟩ := mem_inQuotes.mp matched
    exact quoted_longest (.inr rfl) parts split taken
  | blank =>
    obtain ⟨some, all⟩ := mem_many.mp matched
    obtain ⟨d, more, rfl⟩ := List.exists_cons_of_ne_nil some
    obtain ⟨rfl, -⟩ := List.cons.inj split
    rw [all c List.mem_cons_self] at ink
    cases ink

/-- What is cut in front of a rest is a token there. -/
theorem cut_lexeme (ink : isBlank c = false) (taken : cut c s = .token token letters rest) :
    ∃ more, letters = c :: more ∧ s = more ++ rest ∧ Lexeme letters rest token := by
  obtain ⟨more, rfl, rfl, means⟩ := cut_means taken
  refine ⟨more, rfl, rfl, means.matched, fun pattern further others split matched => ?_, means⟩
  subst split
  have split : c :: (more ++ (further ++ others)) = c :: more ++ further ++ others := by
    rw [List.append_assoc, List.cons_append]
  have bound := cut_longest ink taken matched split
  rw [List.length_append] at bound
  exact List.length_eq_zero_iff.mp (by omega)

/-!
Letters on their own.
-/

theorem word_taken (matched : letters ∈ Pattern.name.language) :
    Taken cut letters (Lexer.word (String.ofList letters)) [] := by
  rw [← String.toList_ofList (l := letters)] at matched
  have alone := legible_word (isName_iff.mpr matched) [] .nil
  rwa [String.toList_ofList] at alone

theorem number_whole (whole : List Char) : number whole [] = .token (integer whole) whole [] := by
  simp [number, fraction?, exponent?]

theorem integer_taken (all : letters ∈ many Char.isDigit) : Taken cut letters (integer letters) [] := by
  obtain ⟨some, each⟩ := mem_many.mp all
  obtain ⟨c, more, rfl⟩ := List.exists_cons_of_ne_nil some
  have digit := each c List.mem_cons_self
  refine ⟨c, more, rfl, isBlank_of_isNamePart (isNamePart_of_isDigit c digit), ?_⟩
  rw [List.append_nil, cut_digits all (List.append_nil _).symm, List.takeWhile_nil, List.dropWhile_nil,
    List.append_nil, number_whole]

theorem float_taken {fraction : Option (List Char)} {exponent : Option Int}
    (before : whole ∈ many Char.isDigit ∨ whole = [] ∧ fraction ≠ none)
    (floats : Floats letters fraction exponent) : Taken cut (whole ++ letters)
      (.float { negative := false, whole, fraction, exponent : Numeral }.nearest) [] := by
  have read := floats.number whole
  rcases before with all | ⟨rfl, some⟩
  · obtain ⟨filled, each⟩ := mem_many.mp all
    obtain ⟨c, more, rfl⟩ := List.exists_cons_of_ne_nil filled
    have digit := each c List.mem_cons_self
    refine ⟨c, more ++ letters, rfl, isBlank_of_isNamePart (isNamePart_of_isDigit c digit), ?_⟩
    have split : c :: (more ++ letters) = c :: more ++ (letters ++ []) := by
      rw [List.append_nil, List.cons_append]
    rw [List.append_nil, cut_float all floats split, List.append_nil]
    exact read
  · obtain ⟨digits, rfl⟩ := Option.ne_none_iff_exists'.mp some
    obtain ⟨behind, rfl, -⟩ := floats.fraction? []
    refine ⟨'.', behind, rfl, by decide, ?_⟩
    rw [List.append_nil, cut_point floats (List.append_nil _).symm, List.append_nil]
    exact read

/-- Letters that mean a token are this token when nothing stands behind them. -/
theorem Means.taken (means : Means letters token) : Taken cut letters token [] := by
  cases means with
  | keyword word =>
    have alone := word_taken (keyword_matched word)
    rw [String.ofList_toList] at alone
    cases word <;> exact alone
  | symbol sign =>
    cases sign <;> exact ⟨_, _, rfl, rfl, rfl⟩
  | name matched other =>
    have alone := word_taken matched
    have differs (word : Keyword) : String.ofList letters ≠ word.spelling := fun same =>
      other word (by rw [← same, String.toList_ofList])
    have plain : Lexer.word (String.ofList letters) = .ident (String.ofList letters) := by
      refine (if_neg (differs .true)).trans <| (if_neg (differs .false)).trans ?_
      exact (if_neg (differs .null)).trans (if_neg (differs .undefined))
    rwa [plain] at alone
  | @whole _ n all fits =>
    have alone := integer_taken all
    rwa [integer, fits] at alone
  | large all exceeds =>
    have alone := integer_taken all
    rwa [integer, exceeds] at alone
  | float before floats => exact float_taken before floats
  | @quoted quote body cs mark parts read =>
    refine ⟨quote, body ++ [quote], rfl, by rcases mark with rfl | rfl <;> decide, ?_⟩
    rw [List.append_nil, cut_quoted mark, literal, literalBody_of_parts (slash_ne mark) parts]
    simp only [read]

end ChangeWatch.Lexer
