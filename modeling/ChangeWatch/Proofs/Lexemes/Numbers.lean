import ChangeWatch.Proofs.Lexemes.Patterns

/-!
How numbers are cut. Each scanner is told by what it takes and what it leaves: digits, a fraction, a scale,
and a number of them. No word of a pattern of numbers is longer than what is taken.
-/
namespace ChangeWatch.Lexer

open scoped Computability

variable {kind : Char → Bool} {s letters rest others digits whole word : List Char}
  {fraction : Option (List Char)} {exponent : Option Int} {power : Int} {token : Token}

/-- Letters of a kind are taken up to the first of another kind. -/
theorem span_iff : s.takeWhile kind = letters ∧ s.dropWhile kind = rest ↔
    s = letters ++ rest ∧ (∀ c ∈ letters, kind c = true) ∧ ∀ c t, rest = c :: t → kind c = false := by
  constructor
  · rintro ⟨rfl, rfl⟩
    refine ⟨List.takeWhile_append_dropWhile.symm, fun c member => List.mem_takeWhile_imp member, ?_⟩
    intro c t same
    have some : s.dropWhile kind ≠ [] := by
      rw [same]
      exact List.cons_ne_nil c t
    have first := List.head_dropWhile_not kind some
    simpa only [same, List.head_cons] using first
  · rintro ⟨rfl, all, ends⟩
    exact Stops.takeWhile_append all ends

/-- Letters of a kind in front of a text are taken, and maybe more. -/
theorem length_le_takeWhile (all : ∀ c ∈ letters, kind c = true) (rest : List Char) :
    letters.length ≤ ((letters ++ rest).takeWhile kind).length := by
  rw [List.takeWhile_append_of_pos all, List.length_append]
  exact Nat.le_add_right _ _

theorem many_append (all : digits ∈ many kind) (more : ∀ c ∈ letters, kind c = true) :
    digits ++ letters ∈ many kind := by
  rw [mem_many] at all ⊢
  exact ⟨List.append_ne_nil_of_left_ne_nil all.1 _, List.forall_mem_append.mpr ⟨all.2, more⟩⟩

theorem run_iff : exponent?.run s = some (digits, rest) ↔
    s = digits ++ rest ∧ digits ∈ many Char.isDigit ∧ NoDigit rest := by
  rw [mem_many]
  constructor
  · intro ran
    simp only [exponent?.run] at ran
    split at ran
    · cases ran
    · rename_i some
      rw [Option.some.injEq, Prod.mk.injEq] at ran
      rw [ran.1, List.isEmpty_iff] at some
      obtain ⟨split, all, ends⟩ := span_iff.mp ran
      exact ⟨split, ⟨some, all⟩, ends⟩
  · rintro ⟨rfl, ⟨some, all⟩, ends⟩
    exact exponent_run some all ends

/-- A fraction is a point and all the digits behind it, one at least. -/
theorem fraction?_iff : fraction? s = some (digits, rest) ↔
    s = '.' :: (digits ++ rest) ∧ digits ∈ many Char.isDigit ∧ NoDigit rest := by
  rw [mem_many]
  constructor
  · intro found
    unfold fraction? at found
    split at found
    · rename_i behind
      simp only at found
      split at found
      · cases found
      · rename_i some
        rw [Option.some.injEq, Prod.mk.injEq] at found
        rw [found.1, List.isEmpty_iff] at some
        obtain ⟨split, all, ends⟩ := span_iff.mp found
        exact ⟨congrArg ('.' :: ·) split, ⟨some, all⟩, ends⟩
    · cases found
  · rintro ⟨rfl, ⟨some, all⟩, ends⟩
    exact fraction?_digits some all ends

/-- The digits of a fraction go on in the rest. -/
theorem fraction?_more (all : digits ∈ many Char.isDigit) (rest : List Char) :
    fraction? ('.' :: digits ++ rest) =
      some (digits ++ rest.takeWhile Char.isDigit, rest.dropWhile Char.isDigit) := by
  obtain ⟨split, more, ends⟩ := span_iff.mp ⟨Eq.refl (rest.takeWhile Char.isDigit), rfl⟩
  refine fraction?_iff.mpr ⟨?_, many_append all more, ends⟩
  rw [List.cons_append, List.append_assoc, ← split]

theorem Scales.first (scales : Scales letters power) :
    ∃ e rest, letters = e :: rest ∧ (e = 'e' ∨ e = 'E') := by
  cases scales with
  | bare letter | plus letter | minus letter => exact ⟨_, _, rfl, letter⟩

theorem Scales.noDigit (scales : Scales letters power) (rest : List Char) : NoDigit (letters ++ rest) := by
  obtain ⟨e, behind, rfl, letter⟩ := scales.first
  rcases letter with rfl | rfl
  · exact noDigit_cons (by decide)
  · exact noDigit_cons (by decide)

/-- A scale goes on with digits. -/
theorem Scales.more (scales : Scales letters power) (all : ∀ c ∈ digits, c.isDigit = true) :
    ∃ power', Scales (letters ++ digits) power' := by
  cases scales with
  | bare letter some => exact ⟨_, .bare letter (many_append some all)⟩
  | plus letter some => exact ⟨_, .plus letter (many_append some all)⟩
  | minus letter some => exact ⟨_, .minus letter (many_append some all)⟩

/-- A scale is taken with all its digits. -/
theorem exponent?_iff : exponent? s = some (letters, power, rest) ↔
    s = letters ++ rest ∧ Scales letters power ∧ NoDigit rest := by
  constructor
  · intro found
    unfold exponent? at found
    split at found
    · rename_i e behind
      split at found
      · rename_i letter
        split at found
        all_goals
          obtain ⟨⟨digits, left⟩, ran, same⟩ := Option.map_eq_some_iff.mp found
          obtain ⟨rfl, all, ends⟩ := run_iff.mp ran
          cases same
        · exact ⟨rfl, .minus letter all, ends⟩
        · exact ⟨rfl, .plus letter all, ends⟩
        · exact ⟨rfl, .bare letter all, ends⟩
      · cases found
    · cases found
  · rintro ⟨rfl, scales, ends⟩
    cases scales with
    | plus letter all =>
      rw [List.cons_append, List.cons_append, exponent?.eq_2, if_pos letter, run_iff.mpr ⟨rfl, all, ends⟩]
      rfl
    | minus letter all =>
      rw [List.cons_append, List.cons_append, exponent?.eq_1, if_pos letter, run_iff.mpr ⟨rfl, all, ends⟩]
      rfl
    | @bare e digits letter all =>
      have unsigned {sign : Char} (other : sign.isDigit = false) (t : List Char) :
          digits ++ rest ≠ sign :: t := by
        obtain ⟨some, all⟩ := mem_many.mp all
        obtain ⟨d, digits, rfl⟩ := List.exists_cons_of_ne_nil some
        rintro ⟨⟩
        rw [all sign List.mem_cons_self] at other
        cases other
      rw [List.cons_append, exponent?.eq_3 _ _ (unsigned (by decide)) (unsigned (by decide)), if_pos letter,
        run_iff.mpr ⟨rfl, all, ends⟩]
      rfl

/-- No scale in front of a text is longer than the one that is taken. -/
theorem Scales.exponent? (scales : Scales letters power) (rest : List Char) :
    ∃ taken power' left, Lexer.exponent? (letters ++ rest) = some (taken, power', left) ∧
      letters.length ≤ taken.length := by
  obtain ⟨split, all, ends⟩ := span_iff.mp ⟨Eq.refl (rest.takeWhile Char.isDigit), rfl⟩
  obtain ⟨power', longer⟩ := scales.more all
  refine ⟨_, power', _, exponent?_iff.mpr ⟨?_, longer, ends⟩, ?_⟩
  · rw [List.append_assoc, ← split]
  · rw [List.length_append]
    exact Nat.le_add_right _ _

theorem fraction?_scale (scales : Scales letters power) (rest : List Char) :
    fraction? (letters ++ rest) = none := by
  obtain ⟨e, behind, rfl, letter⟩ := scales.first
  rcases letter with rfl | rfl <;> rfl

theorem Floats.ne_nil (floats : Floats letters fraction exponent) : letters ≠ [] := by
  cases floats with
  | point | both => exact List.cons_ne_nil _ _
  | scale scales =>
    obtain ⟨e, behind, rfl, -⟩ := scales.first
    exact List.cons_ne_nil _ _

theorem Floats.noDigit (floats : Floats letters fraction exponent) (rest : List Char) :
    NoDigit (letters ++ rest) := by
  cases floats with
  | point | both => exact noDigit_cons (by decide)
  | scale scales => exact scales.noDigit rest

/-- A fraction is found with its point in front, whatever stands behind. -/
theorem Floats.fraction? (floats : Floats letters (some digits) exponent) (rest : List Char) :
    ∃ behind, letters = '.' :: behind ∧ (Lexer.fraction? (letters ++ rest)).isSome = true := by
  cases floats with
  | @point digits all => exact ⟨digits, rfl, by rw [fraction?_more all rest]; rfl⟩
  | @both digits text power all scales =>
    have found : Lexer.fraction? ('.' :: (digits ++ text) ++ rest) = some (digits, text ++ rest) :=
      fraction?_iff.mpr ⟨by rw [List.cons_append, List.append_assoc], all, scales.noDigit rest⟩
    exact ⟨digits ++ text, rfl, by rw [found]; rfl⟩

/-- Letters that make a float of digits are taken with them when nothing stands behind. -/
theorem Floats.number (floats : Floats letters fraction exponent) (whole : List Char) :
    Lexer.number whole letters = .token
      (.float { negative := false, whole, fraction, exponent : Numeral }.nearest) (whole ++ letters) [] := by
  have nothing : NoDigit [] := nofun
  unfold Lexer.number
  cases floats with
  | @point digits all =>
    have found : Lexer.fraction? ('.' :: digits) = some (digits, []) :=
      fraction?_iff.mpr ⟨by rw [List.append_nil], all, nothing⟩
    simp [found, Lexer.exponent?]
  | @both digits text power all scales =>
    have found : Lexer.fraction? ('.' :: (digits ++ text)) = some (digits, text) :=
      fraction?_iff.mpr ⟨rfl, all, List.append_nil text ▸ scales.noDigit []⟩
    have scaled : Lexer.exponent? text = some (text, power, []) :=
      exponent?_iff.mpr ⟨(List.append_nil text).symm, scales, nothing⟩
    simp [found, scaled]
  | scale scales =>
    have found : Lexer.fraction? letters = none := by
      have none := fraction?_scale scales []
      rwa [List.append_nil] at none
    have scaled := exponent?_iff.mpr ⟨(List.append_nil letters).symm, scales, nothing⟩
    simp [found, scaled]

/-- What is taken of a number: its whole digits, or what makes it a float as well. -/
theorem number_taken (taken : number whole s = .token token letters rest) :
    token = integer whole ∧ letters = whole ∧ rest = s ∧ fraction? s = none ∨
      ∃ behind fraction exponent, s = behind ++ rest ∧ letters = whole ++ behind ∧
        Floats behind fraction exponent ∧ fraction = (fraction? s).map Prod.fst ∧
        token = .float { negative := false, whole, fraction, exponent : Numeral }.nearest := by
  unfold number at taken
  cases point : fraction? s with
  | none =>
    simp only [point] at taken
    cases scaled : exponent? s with
    | none =>
      simp only [scaled, Option.isNone_none, Bool.and_self, if_true, Cut.token.injEq] at taken
      obtain ⟨rfl, rfl, rfl⟩ := taken
      exact .inl ⟨rfl, by simp, rfl, rfl⟩
    | some found =>
      obtain ⟨text, power, left⟩ := found
      simp only [scaled, Option.isNone_some, Bool.and_false, Bool.false_eq_true, if_false,
        Cut.token.injEq] at taken
      obtain ⟨rfl, rfl, rfl⟩ := taken
      obtain ⟨split, scales, -⟩ := exponent?_iff.mp scaled
      exact .inr ⟨text, none, some power, split, by simp, .scale scales, rfl, rfl⟩
  | some found =>
    obtain ⟨digits, left⟩ := found
    simp only [point] at taken
    obtain ⟨split, all, -⟩ := fraction?_iff.mp point
    cases scaled : exponent? left with
    | none =>
      simp only [scaled, Option.isNone_some, Bool.false_and, Bool.false_eq_true, if_false,
        Cut.token.injEq] at taken
      obtain ⟨rfl, rfl, rfl⟩ := taken
      exact .inr ⟨'.' :: digits, some digits, none, split, by simp, .point all, rfl, rfl⟩
    | some found =>
      obtain ⟨text, power, last⟩ := found
      simp only [scaled, Option.isNone_some, Bool.false_and, Bool.false_eq_true, if_false,
        Cut.token.injEq] at taken
      obtain ⟨rfl, rfl, rfl⟩ := taken
      obtain ⟨rfl, scales, -⟩ := exponent?_iff.mp scaled
      exact .inr ⟨'.' :: (digits ++ text), some digits, some power, by simp [split], by simp,
        .both all scales, rfl, rfl⟩

/-- No float in front of a text is longer than the number that is taken. -/
theorem Floats.length_le (floats : Floats word fraction exponent)
    (taken : Lexer.number whole (word ++ others) = .token token letters rest) :
    whole.length + word.length ≤ letters.length := by
  unfold Lexer.number at taken
  cases floats with
  | @point digits all =>
    simp only [fraction?_more all others] at taken
    cases scaled : Lexer.exponent? (others.dropWhile Char.isDigit) <;>
    · simp only [scaled] at taken
      cases taken
      simp only [List.length_append, List.length_cons]
      omega
  | @both digits text power all scales =>
    have found : Lexer.fraction? ('.' :: (digits ++ text) ++ others) = some (digits, text ++ others) :=
      fraction?_iff.mpr ⟨by simp, all, scales.noDigit others⟩
    obtain ⟨longer, power', left, scaled, le⟩ := scales.exponent? others
    simp only [found, scaled] at taken
    cases taken
    simp only [List.length_append, List.length_cons]
    omega
  | scale scales =>
    obtain ⟨longer, power', left, scaled, le⟩ := scales.exponent? others
    simp only [fraction?_scale scales others, scaled] at taken
    cases taken
    simp only [List.length_append]
    omega

end ChangeWatch.Lexer
