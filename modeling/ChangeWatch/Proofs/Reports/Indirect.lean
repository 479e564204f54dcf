import ChangeWatch.Proofs.Grammar.Sentences
import ChangeWatch.Proofs.Timeless.Values

/-!
Parsed expressions reach the context through its members only. The implicit receiver cannot be written
down: it stands in front of names and nowhere else. So no expression has the context itself as its value.
-/
namespace ChangeWatch

namespace Expr

mutual
/-- An expression that has no part with the context as its value. -/
def Indirect : Expr → Prop
  | implicit => False
  | literal value => value.IsScalar
  | property receiver _ => receiver.isImplicit = true ∨ receiver.Indirect
  | keyed receiver key => receiver.Indirect ∧ key.Indirect
  | method receiver _ args => (receiver.isImplicit = true ∨ receiver.Indirect) ∧ IndirectAll args
  | apply target args => target.Indirect ∧ IndirectAll args
  | unary _ operand => operand.Indirect
  | binary _ left right => left.Indirect ∧ right.Indirect
  | conditional condition yes no => condition.Indirect ∧ yes.Indirect ∧ no.Indirect
  | array items => IndirectAll items
  | map entries => IndirectEntries entries
  | pipe exp _ args _ => exp.Indirect ∧ IndirectAll args
  | interpolation _ expressions => IndirectAll expressions

def IndirectAll : List Expr → Prop
  | [] => True
  | e :: es => e.Indirect ∧ IndirectAll es

def IndirectEntries : List (String × Expr) → Prop
  | [] => True
  | (_, e) :: entries => e.Indirect ∧ IndirectEntries entries
end

theorem indirectAll_iff {es : List Expr} : IndirectAll es ↔ ∀ e ∈ es, e.Indirect := by
  induction es with
  | nil => simp [IndirectAll]
  | cons e es ih => simp [IndirectAll, ih]

theorem indirectEntries_iff {entries : List (String × Expr)} :
    IndirectEntries entries ↔ ∀ entry ∈ entries, entry.2.Indirect := by
  induction entries with
  | nil => simp [IndirectEntries]
  | cons entry entries ih => simp [IndirectEntries, ih]

end Expr

namespace Grammar

def Item.Indirect : Item α → α → Prop
  | .expression, e => e.Indirect
  | .entry, (_, e) => e.Indirect

/-- All expressions that a phrase means are indirect. -/
def Category.Indirect : Category α → α → Prop
  | .arguments, es => ∀ e ∈ es, e.Indirect
  | .entry, (_, e) => e.Indirect
  | .items item, values | .enclosed item _, values => ∀ value ∈ values, item.Indirect value
  | .conditional, e | .binary _, e | .unary, e | .pipeline, e | .member, e | .primary, e => e.Indirect

theorem Phrase.indirect {Middle : Ending → Prop} {category : Category α} {tokens : List Token}
    {start stop : Nat} {value : α} {ending : Ending}
    (phrase : Phrase Middle category tokens start value ending stop) : category.Indirect value := by
  induction phrase with
  | literal constant =>
    simp only [Category.Indirect, Expr.Indirect]
    unfold Token.literal? at constant
    split at constant <;> cases constant <;> trivial
  | name => exact .inl rfl
  | call _ _ ih => exact ⟨.inl rfl, Expr.indirectAll_iff.mpr ih⟩
  | array _ ih => exact Expr.indirectAll_iff.mpr ih
  | map _ ih => exact Expr.indirectEntries_iff.mpr ih
  | @one _ _ _ _ _ _ item _ ih => cases item <;> exact List.forall_mem_singleton.mpr ih
  | @more _ _ _ _ _ _ _ _ _ item _ _ _ ihBefore ihLast =>
    cases item <;> exact List.forall_mem_append.mpr ⟨ihBefore, List.forall_mem_singleton.mpr ihLast⟩
  | empty | noArgument => exact fun _ impossible => nomatch impossible
  | property _ _ ih => exact .inr ih
  | method _ _ _ ih ihArgs => exact ⟨.inr ih, Expr.indirectAll_iff.mpr ihArgs⟩
  | keyed _ _ ih ihKey => exact ⟨ih, ihKey⟩
  | apply _ _ _ ih ihArgs => exact ⟨ih, Expr.indirectAll_iff.mpr ihArgs⟩
  | argument _ _ ih ihLast =>
    exact List.forall_mem_append.mpr ⟨ih, List.forall_mem_singleton.mpr ihLast⟩
  | pipe _ _ _ ih ihArgs => exact ⟨ih, Expr.indirectAll_iff.mpr ihArgs⟩
  | single level _ ih => cases level <;> exact ih
  | @binary _ _ _ _ _ _ _ _ _ level _ _ _ _ _ _ ih ihRight =>
    cases level <;> exact ⟨ih, ihRight⟩
  | choice _ _ _ _ ih ihYes ihNo => exact ⟨ih, ihYes, ihNo⟩
  | group _ ih | entry _ _ ih | filled _ _ ih | operand _ ih | unpiped _ ih | unsigned _ ih
    | signed _ _ ih | plain _ ih => exact ih

end Grammar

theorem parseSegment_indirect {offset slots stop : Nat} {text : List Char} {e : Expr}
    (parsed : parseSegment offset text slots = .ok (e, stop)) : e.Indirect := by
  obtain ⟨tokens, -, ending, phrase⟩ := Grammar.parseSegment_ok_iff.mp parsed
  exact phrase.indirect

theorem Interpolation.Segments.indirect {start stop : Nat} {es : List Expr}
    (segments : Segments start es stop) : Expr.IndirectAll es := by
  induction segments with
  | nil => trivial
  | cons first _ ih => exact ⟨parseSegment_indirect first, ih⟩

/-- Parsed expressions are indirect. -/
theorem parse_indirect {reading : Reading} {text location : String} {source : Source}
    (parsed : parse reading text location = .ok source) : source.expr.Indirect := by
  cases reading with
  | binding => exact parseSegment_indirect (parse_binding_ok_iff.mp parsed).1
  | interpolation =>
    obtain ⟨strings, es, same, segments⟩ := parse_interpolation_segments parsed
    rw [same]
    exact segments.indirect

end ChangeWatch
