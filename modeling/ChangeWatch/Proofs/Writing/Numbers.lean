import ChangeWatch.Json.Writer
import ChangeWatch.Proofs.Documents
import ChangeWatch.Proofs.Numerals.Literals

/-!
How numbers are written in documents. Integers are digits behind a sign or without one, and floats have a
point or a power of ten, so each kept number has a text of its own. The letters of a number are none of
those that stand behind it, so it ends where they end.
-/
namespace ChangeWatch

/-- The letters of numbers. -/
def isNumeric (c : Char) : Bool := c.isDigit || ['-', '+', '.', 'e'].contains c

theorem isNumeric_digit {c : Char} (digit : c.isDigit = true) : isNumeric c = true :=
  Bool.or_eq_true_iff.mpr (.inl digit)

theorem isNumeric_sign {c : Char} (sign : c ∈ ['-', '+', '.', 'e']) : isNumeric c = true :=
  Bool.or_eq_true_iff.mpr (.inr (List.contains_iff_mem.mpr sign))

theorem mem_toString_int {n : Int} {c : Char} (member : c ∈ (toString n).toList) :
    c.isDigit = true ∨ c = '-' := by
  have digits (m : Nat) (inside : c ∈ m.repr.toList) : c.isDigit = true := by
    rw [Nat.repr_eq_ofList_toDigits, String.toList_ofList] at inside
    exact Lexer.toDigits_isDigit m c inside
  rw [Int.toString_eq_repr, Int.repr_eq_if] at member
  split at member
  · exact .inl (digits _ member)
  · rw [String.toList_append] at member
    rcases List.mem_append.mp member with sign | inside
    · exact .inr (List.mem_singleton.mp sign)
    · exact .inl (digits _ inside)

namespace Numeral

variable {n : Numeral} {c : Char}

theorem Literal.mem_text (literal : n.Literal) (member : c ∈ n.text) :
    c.isDigit = true ∨ c ∈ ['-', '.', 'e'] := by
  rcases List.mem_append.mp member with whole | behind
  · exact .inl (literal.whole.2 c whole)
  rcases List.mem_append.mp behind with fraction | exponent
  · unfold fractionText at fraction
    split at fraction
    · rename_i digits same
      rcases List.mem_cons.mp fraction with rfl | inside
      · exact .inr (by decide)
      · exact .inl ((literal.fraction digits same).2 c inside)
    · cases fraction
  · unfold exponentText at exponent
    split at exponent
    · rcases List.mem_cons.mp exponent with rfl | inside
      · exact .inr (by decide)
      · rcases mem_toString_int inside with digit | rfl
        · exact .inl digit
        · exact .inr (by decide)
    · cases exponent

/-- A float shows that it is no integer. -/
theorem Literal.marked (literal : n.Literal) : '.' ∈ n.text ∨ 'e' ∈ n.text := by
  have float := literal.float
  cases fraction : n.fraction with
  | some digits =>
    have mark : '.' ∈ n.fractionText := by
      rw [fractionText, fraction]
      exact List.mem_cons_self
    exact .inl (List.mem_append_right _ (List.mem_append_left _ mark))
  | none =>
    cases exponent : n.exponent with
    | some power =>
      have mark : 'e' ∈ n.exponentText := by
        rw [exponentText, exponent]
        exact List.mem_cons_self
      exact .inr (List.mem_append_right _ (List.mem_append_right _ mark))
    | none =>
      rw [fraction, exponent] at float
      cases float

theorem Literal.plus (literal : n.Literal) : '+' ∉ n.text := by
  intro member
  rcases literal.mem_text member with digit | mark
  · cases digit
  · exact absurd mark (by decide)

theorem Literal.head (literal : n.Literal) : ∃ d rest, n.text = d :: rest ∧ d.isDigit = true := by
  obtain ⟨full, digits⟩ := literal.whole
  obtain ⟨d, whole, same⟩ := List.exists_cons_of_ne_nil full
  rw [same] at digits
  exact ⟨d, _, by rw [text, same, List.cons_append], digits d List.mem_cons_self⟩

end Numeral

namespace Layout

variable {layout : Layout} {x y : Float}

/-- Letters without plus signs. -/
def bare (text : List Char) : List Char := text.filter (· != '+')

theorem bare_eq_self {text : List Char} (plus : '+' ∉ text) : bare text = text := by
  refine List.filter_eq_self.mpr fun c member => ?_
  exact bne_iff_ne.mpr (ne_of_mem_of_not_mem member plus)

/-- A plus sign in front of a power of ten is all that a layout may add to it. -/
theorem bare_scale (signed : Bool) (digits : List Char) (position : Int) :
    bare (scale signed digits position) = bare (scale false digits position) := by
  cases signed with
  | false => rfl
  | true =>
    simp only [bare, scale, List.filter_append, List.filter_cons]
    by_cases large : 0 < position <;> simp [large]

/-- Up to its sign and plus signs, the text of a float is a numeral with the value of its shortest
decimal. -/
theorem render_bare (pointed : layout.pointed = true) (x : Float) :
    ∃ n : Numeral, n.Literal ∧ n.value = ((Parts.ofFloat x).shortest layout.tie).value ∧
      bare (layout.render x).toList = (if (Parts.ofFloat x).negative then ['-'] else []) ++ n.text := by
  obtain ⟨digits, position, full, all, value, rendered⟩ := render_digits layout x
  have spelled : ∃ n : Numeral, n.Literal ∧
      bare (if layout.positional position then place layout.pointed digits position
        else scale layout.signed digits position) = n.text ∧
      n.value = digitsValue digits * 10 ^ (position - digits.length) := by
    split
    · obtain ⟨n, literal, same, value⟩ := place_spells full all position
      rw [pointed, same]
      exact ⟨n, literal, bare_eq_self literal.plus, value⟩
    · obtain ⟨n, literal, same, value⟩ := scale_spells full all position
      rw [bare_scale, same]
      exact ⟨n, literal, bare_eq_self literal.plus, value⟩
  obtain ⟨n, literal, same, known⟩ := spelled
  refine ⟨n, literal, known.trans value, ?_⟩
  rw [rendered, bare, List.filter_append, ← bare, ← bare, same]
  congr 1
  split <;> rfl

/-- Floats have different texts. -/
theorem render_inj (pointed : layout.pointed = true) (same : layout.render x = layout.render y) : x = y := by
  obtain ⟨n, literal, value, spelled⟩ := render_bare pointed x
  obtain ⟨m, literal', value', spelled'⟩ := render_bare pointed y
  rw [← same, spelled] at spelled'
  obtain ⟨d, rest, head, digit⟩ := literal.head
  obtain ⟨d', rest', head', digit'⟩ := literal'.head
  have sign {d : Char} (digit : d.isDigit = true) : d ≠ '-' := by
    rintro rfl
    cases digit
  obtain ⟨signs, rfl⟩ : (Parts.ofFloat x).negative = (Parts.ofFloat y).negative ∧ n = m := by
    cases negative : (Parts.ofFloat x).negative <;> cases negative' : (Parts.ofFloat y).negative <;>
      simp only [negative, negative', if_true, Bool.false_eq_true, if_false, List.nil_append,
        List.singleton_append] at spelled'
    · exact ⟨rfl, Lexer.text_injective literal literal' spelled'⟩
    · rw [head] at spelled'
      exact absurd (List.cons.inj spelled').1 (sign digit)
    · rw [head'] at spelled'
      exact absurd (List.cons.inj spelled').1.symm (sign digit')
    · exact ⟨rfl, Lexer.text_injective literal literal' (List.cons.inj spelled').2⟩
  obtain ⟨significand, exponent⟩ := Parts.shortest_injective (Parts.regular_ofFloat x)
    (Parts.regular_ofFloat y) (value.symm.trans value')
  refine Parts.ofFloat_injective ?_
  rw [Parts.mk.injEq]
  exact ⟨signs, significand, exponent⟩

theorem mem_render (pointed : layout.pointed = true) {c : Char} (member : c ∈ (layout.render x).toList) :
    isNumeric c = true := by
  obtain ⟨n, literal, -, spelled⟩ := render_bare pointed x
  by_cases plus : c = '+'
  · subst plus
    exact isNumeric_sign (by decide)
  have inside : c ∈ bare (layout.render x).toList := List.mem_filter.mpr ⟨member, bne_iff_ne.mpr plus⟩
  rw [spelled] at inside
  rcases List.mem_append.mp inside with sign | letter
  · split at sign
    · obtain rfl := List.mem_singleton.mp sign
      exact isNumeric_sign (by decide)
    · cases sign
  · rcases literal.mem_text letter with digit | mark
    · exact isNumeric_digit digit
    · exact isNumeric_sign (List.cons_subset_cons '-' (List.subset_cons_self '+' _) mark)

theorem render_marked (pointed : layout.pointed = true) (x : Float) :
    '.' ∈ (layout.render x).toList ∨ 'e' ∈ (layout.render x).toList := by
  obtain ⟨n, literal, -, spelled⟩ := render_bare pointed x
  have inside {c : Char} (mark : c ∈ n.text) : c ∈ (layout.render x).toList := by
    have known : c ∈ bare (layout.render x).toList := by
      rw [spelled]
      exact List.mem_append_right _ mark
    exact (List.mem_filter.mp known).1
  exact literal.marked.imp inside inside

end Layout

namespace Json.Number

/-- The number that an integer is, and none for a float. -/
def integer? : Number → Option Int
  | natural n => some n.toNat
  | negative n => some n.toInt
  | real _ => none

theorem render_integer {number : Number} {n : Int} (integer : number.integer? = some n) :
    number.render = toString n := by
  cases number <;> cases integer <;> rfl

theorem eq_real {number : Number} (float : number.integer? = none) : ∃ x, number = real x := by
  cases number with
  | real x => exact ⟨x, rfl⟩
  | natural | negative => cases float

/-- Kept numbers are told apart by their integers. -/
theorem integer?_inj {a b : Number} {n : Int} (kept : a.IsKept) (kept' : b.IsKept)
    (integer : a.integer? = some n) (integer' : b.integer? = some n) : a = b := by
  cases a with
  | natural k =>
    cases integer
    cases b with
    | natural m =>
      have same : (m.toNat : Int) = k.toNat := Option.some.inj integer'
      rw [UInt64.toNat_inj.mp (Int.ofNat.inj same)]
    | negative m =>
      have below : m.toInt < 0 := Int64.lt_iff_toInt_lt.mp kept'
      rw [Option.some.inj integer'] at below
      omega
    | real => cases integer'
  | negative k =>
    cases integer
    have below : k.toInt < 0 := Int64.lt_iff_toInt_lt.mp kept
    cases b with
    | natural m =>
      rw [← Option.some.inj integer'] at below
      omega
    | negative m => rw [Int64.toInt_inj.mp (Option.some.inj integer')]
    | real => cases integer'
  | real => cases integer

theorem mem_render {number : Number} {c : Char} (member : c ∈ number.render.toList) : isNumeric c = true := by
  cases integer : number.integer? with
  | some n =>
    rw [render_integer integer] at member
    rcases mem_toString_int member with digit | rfl
    · exact isNumeric_digit digit
    · exact isNumeric_sign (by decide)
  | none =>
    obtain ⟨x, rfl⟩ := eq_real integer
    exact Layout.mem_render rfl member

/-- An integer is written otherwise than any float. -/
theorem render_ne_real {number : Number} {n : Int} (integer : number.integer? = some n) (x : Float) :
    number.render ≠ (real x).render := by
  intro same
  have none {c : Char} (mark : c ∈ ['.', 'e']) : c ∉ (Layout.document.render x).toList := by
    intro member
    have inside : c ∈ (toString n).toList := by
      rw [← render_integer integer, same]
      exact member
    rcases mem_toString_int inside with digit | rfl
    · simp only [List.mem_cons, List.not_mem_nil, or_false] at mark
      rcases mark with rfl | rfl <;> cases digit
    · exact absurd mark (by decide)
  have marked : '.' ∈ (Layout.document.render x).toList ∨ 'e' ∈ (Layout.document.render x).toList :=
    Layout.render_marked rfl x
  rcases marked with point | power
  · exact none (by decide) point
  · exact none (by decide) power

/-- Kept numbers have different texts. -/
theorem render_inj {a b : Number} (kept : a.IsKept) (kept' : b.IsKept) (same : a.render = b.render) :
    a = b := by
  cases integer : a.integer? with
  | some n =>
    cases integer' : b.integer? with
    | some m =>
      rw [render_integer integer, render_integer integer', Int.toString_eq_repr, Int.toString_eq_repr] at same
      rw [← Int.repr_inj.mp same] at integer'
      exact integer?_inj kept kept' integer integer'
    | none =>
      obtain ⟨y, rfl⟩ := eq_real integer'
      exact absurd same (render_ne_real integer y)
  | none =>
    obtain ⟨x, rfl⟩ := eq_real integer
    cases integer' : b.integer? with
    | some m => exact absurd same.symm (render_ne_real integer' x)
    | none =>
      obtain ⟨y, rfl⟩ := eq_real integer'
      rw [Layout.render_inj rfl same]

theorem render_ne_nil (number : Number) : number.render.toList ≠ [] := by
  cases integer : number.integer? with
  | some n =>
    have digits (m : Nat) : m.repr.toList ≠ [] := by
      rw [Nat.repr_eq_ofList_toDigits, String.toList_ofList]
      exact Nat.toDigits_ne_nil
    rw [render_integer integer, Int.toString_eq_repr, Int.repr_eq_if]
    split
    · exact digits _
    · rw [String.toList_append]
      exact List.append_ne_nil_of_right_ne_nil _ (digits _)
  | none =>
    obtain ⟨x, rfl⟩ := eq_real integer
    have marked : '.' ∈ (Layout.document.render x).toList ∨ 'e' ∈ (Layout.document.render x).toList :=
      Layout.render_marked rfl x
    rcases marked with point | power
    · exact List.ne_nil_of_mem point
    · exact List.ne_nil_of_mem power

end Json.Number
end ChangeWatch
