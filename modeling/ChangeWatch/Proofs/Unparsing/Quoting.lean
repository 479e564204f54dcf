import ChangeWatch.Text.Quoted

/-!
Quotes keep a text. What a character is written as ends where it ends, whatever stands behind it, so the
characters can be told from the letters between the quotes.
-/
namespace ChangeWatch.Text

theorem digitChar_injective : ∀ m < 16, ∀ n < 16, Nat.digitChar m = Nat.digitChar n → m = n := by decide

theorem hex_of_lt {n : Nat} (less : n < 16) : hex n = [Nat.digitChar n] := Nat.toDigits_of_lt_base less

theorem hex_of_le {n : Nat} (more : 16 ≤ n) : hex n = hex (n / 16) ++ [Nat.digitChar (n % 16)] :=
  Nat.toDigits_of_base_le (by decide) more

theorem hex_ne_nil (n : Nat) : hex n ≠ [] := Nat.toDigits_ne_nil

theorem mem_hex {n : Nat} {c : Char} (member : c ∈ hex n) : ∃ d < 16, c = Nat.digitChar d := by
  induction n using Nat.strongRecOn with
  | ind n ih =>
    rcases Nat.lt_or_ge n 16 with less | more
    · rw [hex_of_lt less] at member
      exact ⟨n, less, List.mem_singleton.mp member⟩
    · rw [hex_of_le more] at member
      rcases List.mem_append.mp member with before | last
      · exact ih (n / 16) (by omega) before
      · exact ⟨n % 16, by omega, List.mem_singleton.mp last⟩

/-- Signs are no hexadecimal digits. -/
theorem not_mem_hex {n : Nat} {c : Char} (other : ∀ d < 16, c ≠ Nat.digitChar d) : c ∉ hex n := by
  intro member
  obtain ⟨d, less, same⟩ := mem_hex member
  exact other d less same

theorem hex_injective : ∀ {m n : Nat}, hex m = hex n → m = n := by
  intro m
  induction m using Nat.strongRecOn with
  | ind m ih =>
    intro n same
    rcases Nat.lt_or_ge m 16 with less | more <;> rcases Nat.lt_or_ge n 16 with less' | more'
    · rw [hex_of_lt less, hex_of_lt less'] at same
      exact digitChar_injective m less n less' (List.cons.inj same).1
    · rw [hex_of_lt less, hex_of_le more', ← List.nil_append [_]] at same
      exact absurd (List.append_inj' same rfl).1.symm (hex_ne_nil _)
    · rw [hex_of_le more, hex_of_lt less', ← List.nil_append [Nat.digitChar n]] at same
      exact absurd (List.append_inj' same rfl).1 (hex_ne_nil _)
    · rw [hex_of_le more, hex_of_le more'] at same
      obtain ⟨before, last⟩ := List.append_inj' same rfl
      have higher := ih (m / 16) (by omega) before
      have lower := digitChar_injective _ (Nat.mod_lt m (by decide)) _ (Nat.mod_lt n (by decide))
        (List.cons.inj last).1
      omega

/-- The characters that are written as a letter behind a backslash, with that letter. -/
def escapes : List (Char × Char) :=
  [('\x00', '0'), ('\t', 't'), ('\r', 'r'), ('\n', 'n'), ('\\', '\\'), ('"', '"')]

/-- How a character is written between quotes: as itself, with a letter behind a backslash, or by its
number. -/
inductive Written : Char → List Char → Prop where
  | plain {c : Char} (quote : c ≠ '"') (slash : c ≠ '\\') : Written c [c]
  | escape {c letter : Char} (known : (c, letter) ∈ escapes) : Written c ['\\', letter]
  | number (c : Char) : Written c ('\\' :: 'u' :: '\x7b' :: (hex c.toNat ++ ['\x7d']))

theorem written_quoteChar (c : Char) : Written c (quoteChar c) := by
  unfold quoteChar
  split
  · subst_vars; exact .escape (by decide)
  split
  · subst_vars; exact .escape (by decide)
  split
  · subst_vars; exact .escape (by decide)
  split
  · subst_vars; exact .escape (by decide)
  split
  · subst_vars; exact .escape (by decide)
  split
  · subst_vars; exact .escape (by decide)
  split
  · exact .number c
  · exact .plain ‹_› ‹_›

/-- Lists that end at the first place of one separator. -/
theorem append_cons_inj {c : Char} {xs ys rest rest' : List Char} (free : c ∉ xs) (free' : c ∉ ys)
    (same : xs ++ c :: rest = ys ++ c :: rest') : xs = ys ∧ rest = rest' := by
  induction xs generalizing ys with
  | nil =>
    cases ys with
    | nil => exact ⟨rfl, (List.cons.inj same).2⟩
    | cons y ys => exact absurd (List.cons.inj same).1 (List.ne_of_not_mem_cons free')
  | cons x xs ih =>
    cases ys with
    | nil => exact absurd (List.cons.inj same).1.symm (List.ne_of_not_mem_cons free)
    | cons y ys =>
      obtain ⟨rfl, behind⟩ := List.cons.inj same
      obtain ⟨rfl, rest⟩ :=
        ih (List.not_mem_of_not_mem_cons free) (List.not_mem_of_not_mem_cons free') behind
      exact ⟨rfl, rest⟩

/-- What one character is written as does not go on with what another one is. -/
theorem Written.unique {c d : Char} {text other rest rest' : List Char} (written : Written c text)
    (written' : Written d other) (same : text ++ rest = other ++ rest') : c = d ∧ rest = rest' := by
  have letters : ∀ p ∈ escapes, ∀ q ∈ escapes, p.2 = q.2 → p.1 = q.1 := by decide
  have numbers : ∀ p ∈ escapes, p.2 ≠ 'u' := by decide
  have close (n : Nat) : '\x7d' ∉ hex n := not_mem_hex (by decide)
  cases written with
  | plain quote slash =>
    cases written' with
    | plain => exact List.cons.inj same
    | escape | number => exact absurd (List.cons.inj same).1 slash
  | escape known =>
    cases written' with
    | plain quote slash => exact absurd (List.cons.inj same).1.symm slash
    | escape known' =>
      obtain ⟨letter, rest⟩ := List.cons.inj (List.cons.inj same).2
      exact ⟨letters _ known _ known' letter, rest⟩
    | number => exact absurd (List.cons.inj (List.cons.inj same).2).1 (numbers _ known)
  | number =>
    cases written' with
    | plain quote slash => exact absurd (List.cons.inj same).1.symm slash
    | escape known => exact absurd (List.cons.inj (List.cons.inj same).2).1.symm (numbers _ known)
    | number =>
      simp only [List.cons_append, List.append_assoc, List.cons.injEq, true_and, List.nil_append] at same
      obtain ⟨number, rest⟩ := append_cons_inj (close _) (close _) same
      exact ⟨Char.toNat_inj.mp (hex_injective number), rest⟩

theorem flatMap_quoteChar_injective : ∀ {cs ds : List Char},
    cs.flatMap quoteChar = ds.flatMap quoteChar → cs = ds
  | [], [], _ => rfl
  | [], d :: ds, same => by
    have some := written_quoteChar d
    rw [List.flatMap_nil, List.flatMap_cons] at same
    rw [(List.append_eq_nil_iff.mp same.symm).1] at some
    cases some
  | c :: cs, [], same => by
    have some := written_quoteChar c
    rw [List.flatMap_nil, List.flatMap_cons] at same
    rw [(List.append_eq_nil_iff.mp same).1] at some
    cases some
  | c :: cs, d :: ds, same => by
    rw [List.flatMap_cons, List.flatMap_cons] at same
    obtain ⟨rfl, behind⟩ := (written_quoteChar c).unique (written_quoteChar d) same
    rw [flatMap_quoteChar_injective behind]

theorem toList_quote (s : String) : (quote s).toList = '"' :: (s.toList.flatMap quoteChar ++ ['"']) := by
  rw [quote, quoteChars, String.toList_ofList]

/-- Different texts are quoted differently. -/
theorem quote_injective {s t : String} (same : quote s = quote t) : s = t := by
  have letters := congrArg String.toList same
  rw [toList_quote, toList_quote] at letters
  exact String.toList_inj.mp
    (flatMap_quoteChar_injective (List.append_cancel_right (List.cons.inj letters).2))

end ChangeWatch.Text
