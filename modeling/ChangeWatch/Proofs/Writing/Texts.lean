import ChangeWatch.Json.Reader
import ChangeWatch.Proofs.Writing.Numbers

/-!
Indented documents keep what they say. The text of a document ends where it ends, whatever stands behind it
in another document or at the end of a page, so a text tells the document apart from the letters behind it.
-/
namespace ChangeWatch.Json

variable {c : Char} {rest rest' : List Char} {level : Nat} {s t : String} {a b : Json}

/-!
Texts in quotes, which are read as they were written.
-/

theorem unit?_append {letters left : List Char} {n : Nat} (read : Draft.unit? letters = some (n, left))
    (rest : List Char) : Draft.unit? (letters ++ rest) = some (n, left ++ rest) := by
  match letters with
  | a :: b :: c :: d :: _ =>
    simp only [List.cons_append, Draft.unit?, Option.bind_eq_bind, Option.bind_eq_some_iff] at read ⊢
    obtain ⟨a, first, b, second, c, third, d, fourth, ⟨⟩⟩ := read
    exact ⟨a, first, b, second, c, third, d, fourth, rfl⟩
  | [] | [_] | [_, _] | [_, _, _] => cases read

/-- A control is written as two digits behind two zeros. -/
theorem unit?_control {n : Nat} (control : n < 0x20) :
    Draft.unit? (['0', '0'] ++ (if n < 0x10 then ['0'] else []) ++ Text.hex n) = some (n, []) := by
  revert n
  decide +kernel

/-- A character is read from its text in one step. -/
theorem text_escapeChar (steps : Nat) (before : List Char) (c : Char) (rest : List Char) :
    Draft.text (steps + 1) (some before) (escapeChar c ++ rest) =
      Draft.text steps (some (c :: before)) rest := by
  unfold escapeChar
  -- The escapes of one letter, and then those of controls.
  iterate 7
    split
    · subst_vars
      rfl
  split
  · rename_i control
    have unit := unit?_append (unit?_control control) rest
    have low : Draft.isLow c.toNat = false := by
      simp only [Draft.isLow, Bool.and_eq_false_iff, decide_eq_false_iff_not]
      omega
    have high : Draft.isHigh c.toNat = false := by
      simp only [Draft.isHigh, Bool.and_eq_false_iff, decide_eq_false_iff_not]
      omega
    simp only [List.cons_append, List.append_assoc, List.nil_append] at unit ⊢
    simp [Draft.text, unit, low, high]
  · rename_i quote slash _ _ _ _ _ control
    have plain : ¬ (c = '\\' ∨ c.toNat < 0x20) := fun either => either.elim slash control
    rw [List.singleton_append, Draft.text, if_neg plain]
    · rfl
    · exact quote
    · exact fun _ same => absurd same slash
    · exact fun _ _ same => absurd same slash

theorem text_escapes (before cs rest : List Char) {steps : Nat} (enough : cs.length < steps) :
    Draft.text steps (some before) (cs.flatMap escapeChar ++ '"' :: rest) =
      some (some (String.ofList (before.reverse ++ cs)), rest) := by
  induction cs generalizing before steps with
  | nil =>
    obtain ⟨steps, rfl⟩ := Nat.exists_eq_add_of_lt enough
    simp [Draft.text]
  | cons c cs ih =>
    obtain ⟨steps, rfl⟩ := Nat.exists_eq_add_of_lt enough
    rw [List.flatMap_cons, List.append_assoc, text_escapeChar, ih]
    · simp
    · simp only [List.length_cons]
      omega

/-- A text is what is read of it, and what stands behind it is left then. -/
theorem quote_cancel (same : (quote s).toList ++ rest = (quote t).toList ++ rest') :
    s = t ∧ rest = rest' := by
  have letters : s.toList.flatMap escapeChar ++ '"' :: rest =
      t.toList.flatMap escapeChar ++ '"' :: rest' := by simpa [quote] using same
  have enough := Nat.lt_succ_of_le (Nat.le_add_right s.toList.length t.toList.length)
  have enough' := Nat.lt_succ_of_le (Nat.le_add_left t.toList.length s.toList.length)
  have read := text_escapes [] s.toList rest enough
  rw [letters, text_escapes [] t.toList rest' enough'] at read
  simpa [eq_comm] using read

/-!
Numbers in front of others.
-/

/-- Letters that do not go on with a number. -/
def Ends (rest : List Char) : Prop := ∀ c behind, rest = c :: behind → isNumeric c = false

theorem Ends.nil : Ends [] := nofun

theorem Ends.cons (other : isNumeric c = false) : Ends (c :: rest) := by
  rintro _ _ ⟨⟩
  exact other

theorem number_cancel {a b : Number} (kept : a.IsKept) (kept' : b.IsKept) (ends : Ends rest)
    (ends' : Ends rest') (same : a.render.toList ++ rest = b.render.toList ++ rest') :
    a = b ∧ rest = rest' := by
  have numeric (number : Number) : ∀ c ∈ number.render.toList, isNumeric c = true :=
    fun _ member => Number.mem_render member
  obtain ⟨taken, left⟩ := Lexer.Stops.takeWhile_append (numeric a) ends
  obtain ⟨taken', left'⟩ := Lexer.Stops.takeWhile_append (numeric b) ends'
  have letters : a.render.toList = b.render.toList := by rw [← taken, same, taken']
  have behind : rest = rest' := by rw [← left, same, left']
  exact ⟨Number.render_inj kept kept' (String.toList_inj.mp letters), behind⟩

/-!
Containers.
-/

/-- What stands behind the first part of a container: the others, one a line, and the closing bracket. -/
def remainder (level : Nat) (closing : Char) : List (List Char) → List Char
  | [] => (margin level).toList ++ [closing]
  | part :: parts => ',' :: ((margin (level + 1)).toList ++ (part ++ remainder level closing parts))

theorem margin_head (level : Nat) : ∃ blanks, (margin level).toList = '\n' :: blanks := by
  rw [margin, String.toList_append]
  exact ⟨_, rfl⟩

theorem remainder_ends (closing : Char) (parts : List (List Char)) :
    Ends (remainder level closing parts ++ rest) := by
  cases parts with
  | nil =>
    obtain ⟨blanks, line⟩ := margin_head level
    rw [remainder, line]
    exact .cons (by decide)
  | cons part parts => exact .cons (by decide)

/-- The last part is followed by a new line, and any other one by a comma. -/
theorem remainder_nil_ne (closing : Char) (part : List Char) (parts : List (List Char)) :
    remainder level closing [] ++ rest ≠ remainder level closing (part :: parts) ++ rest' := by
  obtain ⟨blanks, line⟩ := margin_head level
  rw [remainder, line]
  intro same
  exact absurd (List.cons.inj same).1 (by decide)

theorem intercalate_parts (closing : Char) (part : List Char) (parts : List (List Char)) :
    (',' :: (margin (level + 1)).toList).intercalate (part :: parts) ++ (margin level).toList ++ [closing] =
      part ++ remainder level closing parts := by
  induction parts generalizing part with
  | nil => simp [remainder]
  | cons next parts ih =>
    rw [List.intercalate_cons_cons, remainder, ← ih next]
    simp

/-- A container in its brackets. -/
def bracketed (level : Nat) (opening closing : Char) : List (List Char) → List Char
  | [] => [opening, closing]
  | part :: parts => opening :: ((margin (level + 1)).toList ++ (part ++ remainder level closing parts))

theorem toList_spread (opening closing : String) (parts : List String) {left right : Char}
    (opens : opening.toList = [left]) (closes : closing.toList = [right]) :
    (spread level opening closing parts).toList = bracketed level left right (parts.map String.toList) := by
  cases parts with
  | nil => simp [spread, bracketed, opens, closes]
  | cons part parts =>
    rw [List.map_cons, bracketed, ← intercalate_parts]
    simp [spread, opens, closes]

/-- The parts of two containers with one text, as far as they have been compared: none is left, or a part of
each is the next. -/
inductive Aligned (level : Nat) (closing : Char) (rest rest' : List Char) :
    List (List Char) → List (List Char) → Prop where
  | nil (same : rest = rest') : Aligned level closing rest rest' [] []
  | cons {part part' : List Char} {parts parts' : List (List Char)}
      (same : part ++ (remainder level closing parts ++ rest) =
        part' ++ (remainder level closing parts' ++ rest')) :
      Aligned level closing rest rest' (part :: parts) (part' :: parts')

theorem remainder_aligned {closing : Char} {parts parts' : List (List Char)}
    (same : remainder level closing parts ++ rest = remainder level closing parts' ++ rest') :
    Aligned level closing rest rest' parts parts' := by
  cases parts with
  | nil =>
    cases parts' with
    | nil => exact .nil (List.append_cancel_left same)
    | cons part' parts' => exact absurd same (remainder_nil_ne closing part' parts')
  | cons part parts =>
    cases parts' with
    | nil => exact absurd same.symm (remainder_nil_ne closing part parts)
    | cons part' parts' =>
      simp only [remainder, List.cons_append, List.append_assoc, List.cons.injEq, true_and] at same
      exact .cons (List.append_cancel_left same)

theorem bracketed_aligned {opening closing : Char} {parts parts' : List (List Char)} (mark : closing ≠ '\n')
    (same : bracketed level opening closing parts ++ rest = bracketed level opening closing parts' ++ rest') :
    Aligned level closing rest rest' parts parts' := by
  obtain ⟨blanks, line⟩ := margin_head (level + 1)
  cases parts with
  | nil =>
    cases parts' with
    | nil => exact .nil (List.append_cancel_left same)
    | cons part' parts' =>
      simp only [bracketed, line, List.cons_append, List.cons.injEq, true_and] at same
      exact absurd same.1 mark
  | cons part parts =>
    cases parts' with
    | nil =>
      simp only [bracketed, line, List.cons_append, List.cons.injEq, true_and] at same
      exact absurd same.1.symm mark
    | cons part' parts' =>
      simp only [bracketed, List.cons_append, List.append_assoc, List.cons.injEq, true_and] at same
      exact .cons (List.append_cancel_left same)

/-!
Documents.
-/

mutual
/-- No number of the document is kept as a negative one without being below zero. -/
def NumbersAreKept : Json → Prop
  | number n => n.IsKept
  | array items => ItemNumbersAreKept items
  | object fields => FieldNumbersAreKept fields
  | _ => True

def ItemNumbersAreKept : List Json → Prop
  | [] => True
  | item :: items => item.NumbersAreKept ∧ ItemNumbersAreKept items

def FieldNumbersAreKept : List (String × Json) → Prop
  | [] => True
  | (_, value) :: fields => value.NumbersAreKept ∧ FieldNumbersAreKept fields
end

/-- The first letter of a document, unless it is a number. -/
def mark : Json → Option Char
  | null => some 'n'
  | bool b => some (if b then 't' else 'f')
  | number _ => none
  | string _ => some '"'
  | array _ => some '['
  | object _ => some '\x7b'

theorem toList_pretty_array (items : List Json) : (pretty level (array items)).toList =
    bracketed level '[' ']' ((prettyItems (level + 1) items).map String.toList) := by
  rw [pretty]
  exact toList_spread _ _ _ (by decide) (by decide)

theorem toList_pretty_object (fields : List (String × Json)) : (pretty level (object fields)).toList =
    bracketed level '\x7b' '\x7d' ((prettyFields (level + 1) fields).map String.toList) := by
  rw [pretty]
  exact toList_spread _ _ _ (by decide) (by decide)

theorem bracketed_head (opening closing : Char) (parts : List (List Char)) :
    ∃ letters, bracketed level opening closing parts = opening :: letters := by
  cases parts <;> exact ⟨_, rfl⟩

theorem pretty_head (level : Nat) (json : Json) : ∃ c letters, (pretty level json).toList = c :: letters ∧
    json.mark = if isNumeric c then none else some c := by
  cases json with
  | null => exact ⟨'n', ['u', 'l', 'l'], by rw [pretty]; decide, rfl⟩
  | bool b =>
    cases b with
    | false => exact ⟨'f', ['a', 'l', 's', 'e'], by rw [pretty]; decide, rfl⟩
    | true => exact ⟨'t', ['r', 'u', 'e'], by rw [pretty]; decide, rfl⟩
  | number n =>
    obtain ⟨c, letters, spelled⟩ := List.exists_cons_of_ne_nil n.render_ne_nil
    have first : isNumeric c = true := Number.mem_render (spelled ▸ List.mem_cons_self)
    exact ⟨c, letters, by rw [pretty, spelled], by rw [if_pos first, mark]⟩
  | string s =>
    refine ⟨'"', s.toList.flatMap escapeChar ++ ['"'], ?_, rfl⟩
    rw [pretty, quote, String.toList_ofList]
  | array items =>
    obtain ⟨letters, spelled⟩ := bracketed_head '[' ']' ((prettyItems (level + 1) items).map String.toList)
    exact ⟨'[', letters, by rw [toList_pretty_array, spelled], rfl⟩
  | object fields =>
    obtain ⟨letters, spelled⟩ :=
      bracketed_head '\x7b' '\x7d' ((prettyFields (level + 1) fields).map String.toList)
    exact ⟨'\x7b', letters, by rw [toList_pretty_object, spelled], rfl⟩

/-- Documents with one text are of one kind. -/
theorem mark_eq (same : (pretty level a).toList ++ rest = (pretty level b).toList ++ rest') :
    a.mark = b.mark := by
  obtain ⟨c, letters, spelled, mark⟩ := pretty_head level a
  obtain ⟨d, letters', spelled', mark'⟩ := pretty_head level b
  rw [spelled, spelled', List.cons_append, List.cons_append] at same
  rw [mark, mark', (List.cons.inj same).1]

theorem eq_null (marked : b.mark = some 'n') : b = null := by
  cases b <;> simp [mark] at marked ⊢
  split at marked <;> cases marked

theorem eq_bool {x : Bool} (marked : b.mark = some (if x then 't' else 'f')) : b = bool x := by
  cases b <;> cases x <;> simp [mark] at marked ⊢
  all_goals exact marked

theorem eq_number (numeric : b.mark = none) : ∃ n, b = number n := by
  cases b <;> simp [mark] at numeric ⊢

theorem eq_string (quoted : b.mark = some '"') : ∃ s, b = string s := by
  cases b <;> simp [mark] at quoted ⊢
  split at quoted <;> cases quoted

theorem eq_array (bracket : b.mark = some '[') : ∃ items, b = array items := by
  cases b <;> simp [mark] at bracket ⊢
  split at bracket <;> cases bracket

theorem eq_object (brace : b.mark = some '\x7b') : ∃ fields, b = object fields := by
  cases b <;> simp [mark] at brace ⊢
  split at brace <;> cases brace

theorem itemNumbersAreKept_iff (items : List Json) :
    ItemNumbersAreKept items ↔ ∀ item ∈ items, item.NumbersAreKept := by
  induction items with
  | nil => simp [ItemNumbersAreKept]
  | cons item items ih => rw [ItemNumbersAreKept, ih, List.forall_mem_cons]

theorem fieldNumbersAreKept_iff (fields : List (String × Json)) :
    FieldNumbersAreKept fields ↔ ∀ field ∈ fields, field.2.NumbersAreKept := by
  induction fields with
  | nil => simp [FieldNumbersAreKept]
  | cons field fields ih => rw [FieldNumbersAreKept, ih, List.forall_mem_cons]

/-- The letters of an item, and those of a field. -/
def itemText (level : Nat) (item : Json) : List Char := (pretty level item).toList

def fieldText (level : Nat) (field : String × Json) : List Char :=
  (quote field.1).toList ++ (':' :: ' ' :: (pretty level field.2).toList)

theorem prettyItems_eq (items : List Json) :
    (prettyItems level items).map String.toList = items.map (itemText level) := by
  induction items with
  | nil => rfl
  | cons item items ih => rw [prettyItems, List.map_cons, List.map_cons, ih, itemText]

theorem prettyFields_eq (fields : List (String × Json)) :
    (prettyFields level fields).map String.toList = fields.map (fieldText level) := by
  induction fields with
  | nil => rfl
  | cons field fields ih =>
    have colon : ": ".toList = [':', ' '] := by decide
    rw [prettyFields, List.map_cons, List.map_cons, ih, fieldText, String.toList_append,
      String.toList_append, colon, List.append_assoc, List.cons_append, List.cons_append, List.nil_append]

/-- Parts that are told from what stands behind them are told from each other in a container. -/
theorem parts_cancel {α : Type} {text : α → List Char} {closing : Char} {parts parts' : List α}
    (unique : ∀ part ∈ parts, ∀ part' ∈ parts', ∀ rest rest', Ends rest → Ends rest' →
      text part ++ rest = text part' ++ rest' → part = part' ∧ rest = rest')
    (aligned : Aligned level closing rest rest' (parts.map text) (parts'.map text)) :
    parts = parts' ∧ rest = rest' := by
  induction parts generalizing parts' with
  | nil =>
    cases parts' with
    | nil =>
      cases aligned with
      | nil same => exact ⟨rfl, same⟩
    | cons => cases aligned
  | cons part parts ih =>
    cases parts' with
    | nil => cases aligned
    | cons part' parts' =>
      cases aligned with
      | cons same =>
        obtain ⟨rfl, behind⟩ := unique part List.mem_cons_self part' List.mem_cons_self _ _
          (remainder_ends _ _) (remainder_ends _ _) same
        have others := fun part here part' there =>
          unique part (List.mem_cons_of_mem _ here) part' (List.mem_cons_of_mem _ there)
        obtain ⟨rfl, left⟩ := ih others (remainder_aligned behind)
        exact ⟨rfl, left⟩

/-- The text of a document is told from what stands behind it. -/
theorem pretty_cancel (kept : a.NumbersAreKept) (kept' : b.NumbersAreKept) (ends : Ends rest)
    (ends' : Ends rest') (same : (pretty level a).toList ++ rest = (pretty level b).toList ++ rest') :
    a = b ∧ rest = rest' := by
  induction size : sizeOf a using Nat.strongRecOn generalizing a b level rest rest' with
  | ind size ih =>
    subst size
    have marks := mark_eq same
    cases a with
    | null =>
      obtain rfl := eq_null marks.symm
      exact ⟨rfl, List.append_cancel_left same⟩
    | bool x =>
      obtain rfl := eq_bool marks.symm
      exact ⟨rfl, List.append_cancel_left same⟩
    | number n =>
      obtain ⟨m, rfl⟩ := eq_number marks.symm
      rw [pretty, pretty] at same
      obtain ⟨rfl, behind⟩ := number_cancel kept kept' ends ends' same
      exact ⟨rfl, behind⟩
    | string s =>
      obtain ⟨t, rfl⟩ := eq_string marks.symm
      rw [pretty, pretty] at same
      obtain ⟨rfl, behind⟩ := quote_cancel same
      exact ⟨rfl, behind⟩
    | array items =>
      obtain ⟨items', rfl⟩ := eq_array marks.symm
      rw [toList_pretty_array, toList_pretty_array] at same
      have aligned := bracketed_aligned (by decide) same
      rw [prettyItems_eq, prettyItems_eq] at aligned
      rw [NumbersAreKept, itemNumbersAreKept_iff] at kept kept'
      refine (parts_cancel (fun item here item' there rest rest' ends ends' same => ?_) aligned).imp_left
        (congrArg array)
      have smaller : sizeOf item < sizeOf (array items) := by
        have inside := List.sizeOf_lt_of_mem here
        simp only [array.sizeOf_spec]
        omega
      exact ih (sizeOf item) smaller (kept item here) (kept' item' there) ends ends' same rfl
    | object fields =>
      obtain ⟨fields', rfl⟩ := eq_object marks.symm
      rw [toList_pretty_object, toList_pretty_object] at same
      have aligned := bracketed_aligned (by decide) same
      rw [prettyFields_eq, prettyFields_eq] at aligned
      rw [NumbersAreKept, fieldNumbersAreKept_iff] at kept kept'
      refine (parts_cancel (fun field here field' there rest rest' ends ends' same => ?_) aligned).imp_left
        (congrArg object)
      obtain ⟨name, value⟩ := field
      obtain ⟨name', value'⟩ := field'
      simp only [fieldText, List.append_assoc, List.cons_append] at same
      obtain ⟨rfl, behind⟩ := quote_cancel same
      simp only [List.cons.injEq, true_and] at behind
      have smaller : sizeOf value < sizeOf (object fields) := by
        have inside := List.sizeOf_lt_of_mem here
        simp only [object.sizeOf_spec, Prod.mk.sizeOf_spec] at inside ⊢
        omega
      obtain ⟨rfl, left⟩ :=
        ih (sizeOf value) smaller (kept _ here) (kept' _ there) ends ends' behind rfl
      exact ⟨rfl, left⟩

/-- Documents with one text are one document. -/
theorem pretty_inj (kept : a.NumbersAreKept) (kept' : b.NumbersAreKept)
    (same : a.pretty level = b.pretty level) : a = b :=
  (pretty_cancel kept kept' .nil .nil (congrArg (·.toList ++ []) same)).1

end ChangeWatch.Json
