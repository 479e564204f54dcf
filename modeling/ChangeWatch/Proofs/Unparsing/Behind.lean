import ChangeWatch.Proofs.Unparsing.Scanning

/-!
What stands behind a text. Tokens are as long as they can be, so letters behind a text may change its last
token; letters that go on with no token do not, and a text in front of them is cut as it is alone.
-/
namespace ChangeWatch.Lexer

/-- Letters that go on with no token. -/
def Apart (rest : List Char) : Prop :=
  ∀ c s, rest = c :: s → isNamePart c = false ∧ c ∉ ['.', '=', '|', '+', '-']

namespace Apart

variable {rest : List Char}

theorem cons {c : Char} (other : isNamePart c = false) (sign : c ∉ ['.', '=', '|', '+', '-']) :
    Apart (c :: rest) := by
  rintro _ _ ⟨⟩
  exact ⟨other, sign⟩

/-- The first letter is none of a kind that does not go on. -/
theorem ne (apart : Apart rest) {d : Char} (goes : isNamePart d = true ∨ d ∈ ['.', '=', '|', '+', '-'])
    (s : List Char) : rest ≠ d :: s := by
  intro same
  obtain ⟨other, sign⟩ := apart d s same
  rcases goes with part | member
  · rw [other] at part
    cases part
  · exact sign member

/-- A text does not come to start with a letter that would go on with it. -/
theorem append_ne (apart : Apart rest) {d : Char}
    (goes : isNamePart d = true ∨ d ∈ ['.', '=', '|', '+', '-']) {s : List Char}
    (other : ∀ t, s ≠ d :: t) (t : List Char) : s ++ rest ≠ d :: t := by
  cases s with
  | nil => exact apart.ne goes t
  | cons c s =>
    intro same
    obtain ⟨rfl, -⟩ := List.cons.inj same
    exact other s rfl

/-- Letters of a kind are taken as far as they go without the rest. -/
theorem span (apart : Apart rest) {kind : Char → Bool} (among : ∀ c, kind c = true → isNamePart c = true)
    (s : List Char) : (s ++ rest).takeWhile kind = s.takeWhile kind ∧
      (s ++ rest).dropWhile kind = s.dropWhile kind ++ rest := by
  induction s with
  | nil =>
    cases rest with
    | nil => exact ⟨rfl, rfl⟩
    | cons c s =>
      have none : kind c = false := by
        rw [← Bool.not_eq_true]
        exact fun here => apart.ne (.inl (among c here)) s rfl
      simp [none]
  | cons c s ih =>
    rw [List.cons_append, List.takeWhile_cons, List.takeWhile_cons, List.dropWhile_cons,
      List.dropWhile_cons]
    split
    · exact ⟨congrArg (c :: ·) ih.1, ih.2⟩
    · exact ⟨rfl, rfl⟩

end Apart

variable {rest : List Char}

theorem fraction?_append (apart : Apart rest) (s : List Char) :
    fraction? (s ++ rest) = (fraction? s).map fun (ds, after) => (ds, after ++ rest) := by
  cases s with
  | nil =>
    unfold fraction?
    split
    · rename_i same
      exact absurd same (apart.ne (.inr (by decide)) _)
    · rfl
  | cons c s =>
    by_cases point : c = '.'
    · subst point
      obtain ⟨taken, left⟩ := apart.span isNamePart_of_isDigit s
      simp only [List.cons_append, fraction?, taken, left]
      split <;> rfl
    · simp [fraction?, point]

theorem run_append (apart : Apart rest) (s : List Char) :
    exponent?.run (s ++ rest) = (exponent?.run s).map fun (ds, after) => (ds, after ++ rest) := by
  obtain ⟨taken, left⟩ := apart.span isNamePart_of_isDigit s
  simp only [exponent?.run, taken, left]
  split <;> rfl

theorem exponent?_append (apart : Apart rest) (s : List Char) :
    exponent? (s ++ rest) =
      (exponent? s).map fun (letters, value, after) => (letters, value, after ++ rest) := by
  have run (e : Char) (sign : List Char) (value : List Char → Int) (s : List Char) :
      (exponent?.run (s ++ rest)).map (fun (ds, after) => (e :: (sign ++ ds), value ds, after)) =
        ((exponent?.run s).map fun (ds, after) => (e :: (sign ++ ds), value ds, after)).map
          fun (letters, value, after) => (letters, value, after ++ rest) := by
    rw [run_append apart, Option.map_map, Option.map_map]
    rfl
  cases s with
  | nil =>
    cases rest with
    | nil => rfl
    | cons c s =>
      have neither : ¬ (c = 'e' ∨ c = 'E') := by
        rintro (rfl | rfl) <;> exact apart.ne (.inl (by decide)) s rfl
      exact if_neg neither
  | cons e s =>
    by_cases minus : ∃ t, s = '-' :: t
    · obtain ⟨t, rfl⟩ := minus
      rw [List.cons_append, List.cons_append, exponent?.eq_1, exponent?.eq_1]
      split
      · exact run e ['-'] (fun ds => -(digitsValue ds : Int)) t
      · rfl
    by_cases plus : ∃ t, s = '+' :: t
    · obtain ⟨t, rfl⟩ := plus
      rw [List.cons_append, List.cons_append, exponent?.eq_2, exponent?.eq_2]
      split
      · exact run e ['+'] (fun ds => (digitsValue ds : Int)) t
      · rfl
    have minus' := not_exists.mp minus
    have plus' := not_exists.mp plus
    rw [List.cons_append, exponent?.eq_3 e s minus' plus', exponent?.eq_3 e (s ++ rest)
      (apart.append_ne (.inr (by decide)) minus') (apart.append_ne (.inr (by decide)) plus')]
    split
    · exact run e [] (fun ds => (digitsValue ds : Int)) s
    · rfl

theorem number_append (apart : Apart rest) {whole s letters after : List Char} {token : Token}
    (taken : number whole s = .token token letters after) :
    number whole (s ++ rest) = .token token letters (after ++ rest) := by
  unfold number at taken ⊢
  rw [fraction?_append apart]
  generalize fraction? s = fraction at taken ⊢
  cases fraction with
  | none =>
    simp only [Option.map_none, exponent?_append apart] at taken ⊢
    generalize exponent? s = exponent at taken ⊢
    cases exponent with
    | none =>
      simp only [Option.map_none, Option.isNone_none, Bool.and_self, if_true, Cut.token.injEq] at taken ⊢
      obtain ⟨rfl, rfl, rfl⟩ := taken
      exact ⟨rfl, rfl, rfl⟩
    | some found =>
      simp only [Option.map_some, Option.isNone_some, Bool.and_false, Bool.false_eq_true, if_false,
        Cut.token.injEq] at taken ⊢
      obtain ⟨rfl, rfl, rfl⟩ := taken
      exact ⟨rfl, rfl, rfl⟩
  | some fraction =>
    simp only [Option.map_some, exponent?_append apart, Option.isNone_some, Bool.false_and,
      Bool.false_eq_true, if_false] at taken ⊢
    generalize exponent? fraction.2 = exponent at taken ⊢
    cases exponent <;> (cases taken; rfl)

/-- A text in quotes ends at its closing quote, whatever stands behind it. -/
theorem literalBody_closed {quote : Char} (slash : quote ≠ '\\') (s rest : List Char) :
    ∀ {body after : List Char}, literalBody quote s = (body, some after) →
      literalBody quote (s ++ rest) = (body, some (after ++ rest)) := by
  fun_induction literalBody quote s with
  | case1 | case2 | case5 => nofun
  | case3 d s line body behind found ih =>
    rintro _ after ⟨⟩
    rw [List.cons_append, List.cons_append, literalBody, if_neg line, ih found]
  | case4 s =>
    rintro _ _ ⟨⟩
    rw [List.cons_append, literalBody.eq_3 _ _ _ fun _ _ same => absurd same slash, if_pos rfl]
  | case6 c s _ other plain body behind found ih =>
    rintro _ after ⟨⟩
    rw [List.cons_append, literalBody.eq_3 _ _ _ fun _ _ same => absurd same plain, if_neg other,
      if_neg plain, ih found]

theorem literal_append {quote : Char} (slash : quote ≠ '\\') (rest : List Char)
    {s letters after : List Char} {token : Token}
    (taken : literal quote s = .token token letters after) :
    literal quote (s ++ rest) = .token token letters (after ++ rest) := by
  unfold literal at taken
  split at taken
  · cases taken
  · rename_i body behind found
    rw [literal, literalBody_closed slash s rest found]
    simp only
    split at taken
    · cases taken
      rfl
    · cases taken

theorem symbol_append (apart : Apart rest) {c : Char} {s letters after : List Char} {token : Token}
    (taken : symbol c s = .token token letters after) :
    symbol c (s ++ rest) = .token token letters (after ++ rest) := by
  have equals {s : List Char} (other : ∀ t, s = '=' :: t → False) : ∀ t, s ++ rest ≠ '=' :: t :=
    apart.append_ne (.inr (by decide)) other
  have bars {s : List Char} (other : ∀ t, s = '|' :: t → False) : ∀ t, s ++ rest ≠ '|' :: t :=
    apart.append_ne (.inr (by decide)) other
  unfold symbol at taken
  -- Where a longer symbol has been ruled out by the next letter, it still is.
  split at taken
  case h_2 _ _ s other =>
    cases taken
    exact symbol.eq_2 _ (equals other)
  case h_4 _ _ s other =>
    cases taken
    exact symbol.eq_4 _ (equals other)
  case h_5 _ _ _ other =>
    cases taken
    exact symbol.eq_5 _ (fun t => equals other ('=' :: t)) (equals other)
  case h_7 _ _ other =>
    cases taken
    exact symbol.eq_7 _ (equals other)
  case h_9 _ _ other =>
    cases taken
    exact symbol.eq_9 _ (equals other)
  case h_12 _ _ other =>
    cases taken
    exact symbol.eq_12 _ (bars other)
  all_goals cases taken <;> rfl

/-- A token stays what it is in front of letters that do not go on with it. -/
theorem cut_append (apart : Apart rest) {c : Char} {s letters after : List Char} {token : Token}
    (taken : cut c s = .token token letters after) :
    cut c (s ++ rest) = .token token letters (after ++ rest) := by
  unfold cut at taken ⊢
  split at taken
  · rename_i starts
    obtain ⟨same, left⟩ := apart.span (fun _ part => part) s
    rw [if_pos starts, same, left]
    cases taken
    rfl
  rename_i other
  rw [if_neg other]
  split at taken
  · rename_i digit
    obtain ⟨same, left⟩ := apart.span isNamePart_of_isDigit s
    rw [if_pos digit, same, left]
    exact number_append apart taken
  rename_i other
  rw [if_neg other]
  split at taken
  · rename_i quote
    have slash : c ≠ '\\' := by
      rintro rfl
      exact absurd quote (by decide)
    rw [if_pos quote]
    exact literal_append slash rest taken
  rename_i other
  have same : (fraction? (c :: (s ++ rest))).isSome = (fraction? (c :: s)).isSome := by
    rw [← List.cons_append, fraction?_append apart, Option.isSome_map]
  rw [if_neg other, same]
  split at taken
  · rename_i point
    rw [if_pos point, ← List.cons_append]
    exact number_append apart taken
  · rename_i other
    rw [if_neg other]
    exact symbol_append apart taken

/-!
A token takes its first letter at least.
-/

theorem length_dropWhile_le (kind : Char → Bool) (s : List Char) :
    (s.dropWhile kind).length ≤ s.length :=
  (List.dropWhile_suffix kind).length_le

theorem fraction?_less {s ds after : List Char} (found : fraction? s = some (ds, after)) :
    after.length < s.length := by
  unfold fraction? at found
  split at found
  · simp only at found
    split at found <;> cases found
    exact Nat.lt_succ_of_le (length_dropWhile_le _ _)
  · cases found

theorem run_less {s ds after : List Char} (found : exponent?.run s = some (ds, after)) :
    after.length ≤ s.length := by
  simp only [exponent?.run] at found
  split at found <;> cases found
  exact length_dropWhile_le _ _

theorem exponent?_less {s letters after : List Char} {value : Int}
    (found : exponent? s = some (letters, value, after)) : after.length ≤ s.length := by
  unfold exponent? at found
  split at found
  · split at found
    · split at found <;>
      · obtain ⟨⟨ds, rest⟩, ran, same⟩ := Option.map_eq_some_iff.mp found
        cases same
        have less := run_less ran
        simp only [List.length_cons]
        omega
    · cases found
  · cases found

theorem number_less {whole s letters after : List Char} {token : Token}
    (taken : number whole s = .token token letters after) :
    after.length ≤ s.length ∧ ((fraction? s).isSome = true → after.length < s.length) := by
  unfold number at taken
  cases point : fraction? s with
  | none =>
    simp only [point] at taken
    refine ⟨?_, nofun⟩
    cases power : exponent? s with
    | none =>
      simp only [power, Option.isNone_none, Bool.and_self, if_true, Cut.token.injEq] at taken
      exact Nat.le_of_eq (congrArg List.length taken.2.2.symm)
    | some found =>
      simp only [power, Option.isNone_some, Bool.and_false, Bool.false_eq_true, if_false,
        Cut.token.injEq] at taken
      rw [← taken.2.2]
      exact exponent?_less power
  | some fraction =>
    simp only [point] at taken
    have less := fraction?_less point
    cases power : exponent? fraction.2 with
    | none =>
      simp only [power] at taken
      cases taken
      exact ⟨Nat.le_of_lt less, fun _ => less⟩
    | some found =>
      simp only [power] at taken
      cases taken
      have fewer := exponent?_less power
      exact ⟨by omega, fun _ => by omega⟩

theorem literalBody_less {quote : Char} (s : List Char) : ∀ {body after : List Char},
    literalBody quote s = (body, some after) → after.length < s.length := by
  fun_induction literalBody quote s with
  | case1 | case2 | case5 => nofun
  | case3 d s line body behind found ih =>
    rintro _ after ⟨⟩
    have less := ih found
    simp only [List.length_cons]
    omega
  | case4 s =>
    rintro _ _ ⟨⟩
    exact Nat.lt_succ_self _
  | case6 c s _ other plain body behind found ih =>
    rintro _ after ⟨⟩
    exact Nat.lt_succ_of_lt (ih found)

theorem cut_less {c : Char} {s letters after : List Char} {token : Token}
    (taken : cut c s = .token token letters after) : after.length ≤ s.length := by
  unfold cut at taken
  split at taken
  · cases taken
    exact length_dropWhile_le _ _
  split at taken
  · exact Nat.le_trans (number_less taken).1 (length_dropWhile_le _ _)
  split at taken
  · unfold literal at taken
    split at taken
    · cases taken
    · rename_i found
      split at taken <;> cases taken
      exact Nat.le_of_lt (literalBody_less _ found)
  split at taken
  · rename_i point
    exact Nat.le_of_lt_succ ((number_less taken).2 point.2)
  · unfold symbol at taken
    split at taken <;> cases taken <;> grind

namespace Cuts

/-- A text that is cut up to some letters is cut up to them with others behind it. -/
theorem behind {text after : List Char} {tokens : List Token} (cuts : Cuts cut text tokens after)
    (apart : Apart rest) : Cuts cut (text ++ rest) tokens (after ++ rest) := by
  induction cuts with
  | done => exact .done _
  | blank blank _ ih => exact .blank blank ih
  | token ink first less _ ih =>
    exact .token ink (cut_append apart first) (by simpa using less) ih

/-- The tokens of a text are cut to its end. -/
theorem of_tokenize {offset : Nat} {text : List Char} {tokens : List Spanned}
    (ran : tokenizeFrom offset text = .ok tokens) : Cuts cut text (tokens.map Spanned.token) [] := by
  have all (steps : Nat) : ∀ {offset : Nat} {text : List Char} {tokens : List Spanned},
      text.length ≤ steps → cutAll steps offset text = .ok tokens →
        Cuts cut text (tokens.map Spanned.token) [] := by
    induction steps with
    | zero =>
      intro offset text tokens enough ran
      cases text with
      | nil =>
        cases ran
        exact .done []
      | cons c s => cases enough
    | succ steps ih =>
      intro offset text tokens enough ran
      cases text with
      | nil =>
        cases ran
        exact .done []
      | cons c s =>
        rw [cutAll] at ran
        split at ran
        · rename_i blank
          exact .blank blank (ih (Nat.le_of_succ_le_succ enough) ran)
        · rename_i ink
          split at ran
          · cases ran
          · rename_i token letters rest taken
            simp only at ran
            split at ran
            · rename_i others behind
              cases ran
              have less := cut_less taken
              have fewer := Nat.le_trans less (Nat.le_of_succ_le_succ enough)
              exact .token (Bool.not_eq_true _ ▸ ink) taken less (ih fewer behind)
            · cases ran
  exact all text.length (Nat.le_refl _) ran

end Cuts

end ChangeWatch.Lexer
