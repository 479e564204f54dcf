import ChangeWatch.Proofs.Unparsing.Overt

/-!
What the canonical text of an expression shows, which may be another expression: a property that is called
looks like a method, and an infinite number like a name. Nothing else is lost.
-/
namespace ChangeWatch

open Float.Model (UnpackedFloat)

namespace Value

/-- Numbers that are not finite are printed as a word. -/
def shown : Value → Expr
  | float x => if x.isFinite then .literal (.float x) else .name (displayFloat x)
  | value => .literal value

variable {value : Value}

theorem render_shown (value : Value) : value.shown.render = value.renderLiteral := by
  unfold shown
  split
  · rename_i x
    split
    · rfl
    · rename_i word
      simp only [Expr.name, Expr.render, Expr.isImplicit, renderLiteral, if_neg word, ↓reduceIte]
  · rfl

theorem isImplicit_shown (value : Value) : value.shown.isImplicit = false := by
  unfold shown
  split
  · split <;> rfl
  · rfl

theorem shown_eq (finite : value.IsFinite) : value.shown = .literal value := by
  cases value with
  | float x => exact if_pos finite
  | _ => rfl

/-- Without a sign there are two words. -/
theorem displayFloat_word {x : Float} (unsigned : IsUnsigned x) (word : x.isFinite = false) :
    displayFloat x = "NaN" ∨ displayFloat x = "Infinity" := by
  have bits : Unsigned x.toModel.unpack := unsigned.unpack
  cases shape : x.toModel.unpack with
  | notANumber =>
    have nan : x.isNaN = true := by simp [Float.isNaN, Float.Model.isNaN, shape, UnpackedFloat.isNaN]
    exact .inl (if_pos nan)
  | infinity sign =>
    rw [shape] at bits
    cases bits
    have nan : x.isNaN = false := by simp [Float.isNaN, Float.Model.isNaN, shape, UnpackedFloat.isNaN]
    have infinite : x.isInf = true := by
      simp [Float.isInf, Float.Model.isInf, shape, UnpackedFloat.isInf]
    have zero : (0.0 : Float).toModel.unpack = .zero .positive := rfl
    have positive : 0.0 < x := by
      refine decide_eq_true ?_
      show Float.Model.lt _ _ = true
      rw [Float.Model.lt, shape, zero]
      rfl
    rw [displayFloat, nan, if_neg Bool.false_ne_true, if_pos infinite, if_pos positive]
    exact .inr rfl
  | zero | finite =>
    have finite : x.isFinite = true := by
      simp [Float.isFinite, Float.Model.isFinite, shape, UnpackedFloat.isFinite]
    cases word.symm.trans finite

theorem Lexed.over_shown (lexed : value.Lexed) : value.shown.Over .lexed ∧ value.shown.Overt := by
  cases value with
  | float x =>
    by_cases finite : x.isFinite = true
    · have shows : (float x).shown = .literal (float x) := shown_eq finite
      rw [shows]
      exact ⟨lexed, finite⟩
    · have word : IsIdentifier (displayFloat x) := by
        obtain same | same := displayFloat_word lexed (Bool.eq_false_of_not_eq_true finite)
        all_goals
          rw [same]
          decide
      rw [shown, if_neg finite]
      exact ⟨⟨.inl rfl, word⟩, trivial⟩
  | _ => exact ⟨lexed, trivial⟩

end Value

namespace Expr

/-- The call of an expression, as its text shows it. -/
def shownCall : Expr → List Expr → Expr
  | property receiver name, args => method receiver name args
  | target, args => apply target args

theorem render_shownCall (target : Expr) (args : List Expr) :
    (shownCall target args).render = (apply target args).render := by
  cases target <;> simp only [shownCall, render]

mutual
/-- The expression that a canonical text shows. -/
def shown : Expr → Expr
  | implicit => implicit
  | literal value => value.shown
  | property receiver name => property receiver.shown name
  | keyed receiver key => keyed receiver.shown key.shown
  | method receiver name args => method receiver.shown name (shownAll args)
  | apply target args => shownCall target.shown (shownAll args)
  | unary op operand => unary op operand.shown
  | binary op left right => binary op left.shown right.shown
  | conditional condition yes no => conditional condition.shown yes.shown no.shown
  | array items => array (shownAll items)
  | map entries => map (shownEntries entries)
  | pipe exp name args slot => pipe exp.shown name (shownAll args) slot
  | interpolation strings expressions => interpolation strings (shownAll expressions)

def shownAll : List Expr → List Expr
  | [] => []
  | e :: es => e.shown :: shownAll es

def shownEntries : List (String × Expr) → List (String × Expr)
  | [] => []
  | (key, e) :: entries => (key, e.shown) :: shownEntries entries
end

theorem isImplicit_shown (e : Expr) : e.shown.isImplicit = e.isImplicit := by
  cases e with
  | literal value => exact value.isImplicit_shown
  | apply target args =>
    rw [shown]
    cases target.shown <;> rfl
  | _ => rfl

mutual
theorem render_shown : (e : Expr) → e.shown.render = e.render
  | implicit => rfl
  | literal value => by rw [shown, value.render_shown, render]
  | property receiver _ => by simp only [shown, render, isImplicit_shown, render_shown receiver]
  | keyed receiver key => by simp only [shown, render, render_shown receiver, render_shown key]
  | method receiver _ args => by
    simp only [shown, render, isImplicit_shown, render_shown receiver, renderAll_shownAll args]
  | apply target args => by
    rw [shown, render_shownCall]
    simp only [render, render_shown target, renderAll_shownAll args]
  | unary _ operand => by simp only [shown, render, render_shown operand]
  | binary _ left right => by simp only [shown, render, render_shown left, render_shown right]
  | conditional condition yes no => by
    simp only [shown, render, render_shown condition, render_shown yes, render_shown no]
  | array items => by simp only [shown, render, renderAll_shownAll items]
  | map entries => by simp only [shown, render, renderEntries_shownEntries entries]
  | pipe exp _ args _ => by simp only [shown, render, render_shown exp, renderAll_shownAll args]
  | interpolation _ expressions => by simp only [shown, render, renderAll_shownAll expressions]

theorem renderAll_shownAll : (es : List Expr) → renderAll (shownAll es) = renderAll es
  | [] => rfl
  | e :: es => by simp only [shownAll, renderAll, render_shown e, renderAll_shownAll es]

theorem renderEntries_shownEntries : (entries : List (String × Expr)) →
    renderEntries (shownEntries entries) = renderEntries entries
  | [] => rfl
  | (_, e) :: entries => by
    simp only [shownEntries, renderEntries, render_shown e, renderEntries_shownEntries entries]
end

mutual
/-- Pipes are shown where they are. -/
theorem pipeSlots_shown : (e : Expr) → e.shown.pipeSlots = e.pipeSlots
  | implicit => rfl
  | literal value => by
    cases value with
    | float x =>
      rw [shown, Value.shown]
      split <;> rfl
    | _ => rfl
  | property receiver _ => by simp only [shown, pipeSlots, pipeSlots_shown receiver]
  | keyed receiver key => by simp only [shown, pipeSlots, pipeSlots_shown receiver, pipeSlots_shown key]
  | method receiver _ args => by
    simp only [shown, pipeSlots, pipeSlots_shown receiver, pipeSlotsAll_shownAll args]
  | apply target args => by
    have call : (shownCall target.shown (shownAll args)).pipeSlots =
        target.shown.pipeSlots ++ pipeSlotsAll (shownAll args) := by
      cases target.shown <;> simp only [shownCall, pipeSlots]
    rw [shown, call, pipeSlots_shown target, pipeSlotsAll_shownAll args, pipeSlots]
  | unary _ operand => by simp only [shown, pipeSlots, pipeSlots_shown operand]
  | binary _ left right => by simp only [shown, pipeSlots, pipeSlots_shown left, pipeSlots_shown right]
  | conditional condition yes no => by
    simp only [shown, pipeSlots, pipeSlots_shown condition, pipeSlots_shown yes, pipeSlots_shown no]
  | array items => by simp only [shown, pipeSlots, pipeSlotsAll_shownAll items]
  | map entries => by simp only [shown, pipeSlots, pipeSlotsEntries_shownEntries entries]
  | pipe exp _ args _ => by
    simp only [shown, pipeSlots, pipeSlots_shown exp, pipeSlotsAll_shownAll args]
  | interpolation _ expressions => by simp only [shown, pipeSlots, pipeSlotsAll_shownAll expressions]

theorem pipeSlotsAll_shownAll : (es : List Expr) → pipeSlotsAll (shownAll es) = pipeSlotsAll es
  | [] => rfl
  | e :: es => by simp only [shownAll, pipeSlotsAll, pipeSlots_shown e, pipeSlotsAll_shownAll es]

theorem pipeSlotsEntries_shownEntries : (entries : List (String × Expr)) →
    pipeSlotsEntries (shownEntries entries) = pipeSlotsEntries entries
  | [] => rfl
  | (_, e) :: entries => by
    simp only [shownEntries, pipeSlotsEntries, pipeSlots_shown e, pipeSlotsEntries_shownEntries entries]
end

/-- What is shown as a call calls no property. -/
theorem over_shownCall {target : Expr} {args : List Expr} (known : target.Over .lexed)
    (overt : target.Overt) (known' : OverAll .lexed args) (overt' : OvertAll args) :
    (shownCall target args).Over .lexed ∧ (shownCall target args).Overt := by
  cases target with
  | property receiver name => exact ⟨⟨known.1, known.2, known'⟩, overt, overt'⟩
  | _ => exact ⟨⟨known, trivial, known'⟩, rfl, overt, overt'⟩

mutual
/-- What the text of lexed leaves shows is overt. -/
theorem Over.shown : {e : Expr} → e.Over .lexed → e.shown.Over .lexed ∧ e.shown.Overt
  | literal _, known => Value.Lexed.over_shown known
  | property _ _, ⟨known, named⟩ => by
    rcases known with none | some
    · rw [eq_implicit none]
      exact ⟨⟨.inl rfl, named⟩, trivial⟩
    · have ⟨lexed, overt⟩ := shown some
      exact ⟨⟨.inr lexed, named⟩, overt⟩
  | keyed _ _, ⟨known, known'⟩ =>
    have ⟨lexed, overt⟩ := shown known
    have ⟨lexed', overt'⟩ := shown known'
    ⟨⟨lexed, lexed'⟩, overt, overt'⟩
  | method _ _ _, ⟨known, named, known'⟩ => by
    have ⟨lexed', overt'⟩ := shown_all known'
    rcases known with none | some
    · rw [eq_implicit none]
      exact ⟨⟨.inl rfl, named, lexed'⟩, trivial, overt'⟩
    · have ⟨lexed, overt⟩ := shown some
      exact ⟨⟨.inr lexed, named, lexed'⟩, overt, overt'⟩
  | apply _ _, ⟨known, _, known'⟩ =>
    have ⟨lexed, overt⟩ := shown known
    have ⟨lexed', overt'⟩ := shown_all known'
    over_shownCall lexed overt lexed' overt'
  | unary _ operand, known => @shown operand known
  | binary _ _ _, ⟨known, known'⟩ =>
    have ⟨lexed, overt⟩ := shown known
    have ⟨lexed', overt'⟩ := shown known'
    ⟨⟨lexed, lexed'⟩, overt, overt'⟩
  | conditional _ _ _, ⟨known, known', known''⟩ =>
    have ⟨lexed, overt⟩ := shown known
    have ⟨lexed', overt'⟩ := shown known'
    have ⟨lexed'', overt''⟩ := shown known''
    ⟨⟨lexed, lexed', lexed''⟩, overt, overt', overt''⟩
  | array items, known => @shown_all items known
  | map entries, known => @shown_entries entries known
  | pipe _ _ _ _, ⟨known, named, known'⟩ =>
    have ⟨lexed, overt⟩ := shown known
    have ⟨lexed', overt'⟩ := shown_all known'
    ⟨⟨lexed, named, lexed'⟩, overt, overt'⟩

theorem Over.shown_all : {es : List Expr} → OverAll .lexed es →
    OverAll .lexed (shownAll es) ∧ OvertAll (shownAll es)
  | [], _ => ⟨trivial, trivial⟩
  | _ :: _, ⟨known, others⟩ =>
    have ⟨lexed, overt⟩ := shown known
    have ⟨lexed', overt'⟩ := shown_all others
    ⟨⟨lexed, lexed'⟩, overt, overt'⟩

theorem Over.shown_entries : {entries : List (String × Expr)} → OverEntries .lexed entries →
    OverEntries .lexed (shownEntries entries) ∧ OvertEntries (shownEntries entries)
  | [], _ => ⟨trivial, trivial⟩
  | _ :: _, ⟨⟨named, known⟩, others⟩ =>
    have ⟨lexed, overt⟩ := shown known
    have ⟨lexed', overt'⟩ := shown_entries others
    ⟨⟨⟨named, lexed⟩, lexed'⟩, overt, overt'⟩
end

mutual
/-- Overt expressions are shown as they are. -/
theorem Overt.shown_eq : {e : Expr} → e.Overt → e.shown = e
  | implicit, _ => rfl
  | literal _, overt => Value.shown_eq overt
  | property receiver _, overt => by
    have overt : receiver.Overt := overt
    rw [shown, overt.shown_eq]
  | keyed _ _, ⟨overt, overt'⟩ => by rw [shown, overt.shown_eq, overt'.shown_eq]
  | method _ _ _, ⟨overt, overt'⟩ => by rw [shown, overt.shown_eq, shownAll_eq overt']
  | apply target _, ⟨value, overt, overt'⟩ => by
    rw [shown, overt.shown_eq, shownAll_eq overt']
    cases target <;> first | rfl | cases value
  | unary _ operand, overt => by
    have overt : operand.Overt := overt
    rw [shown, overt.shown_eq]
  | binary _ _ _, ⟨overt, overt'⟩ => by rw [shown, overt.shown_eq, overt'.shown_eq]
  | conditional _ _ _, ⟨overt, overt', overt''⟩ => by
    rw [shown, overt.shown_eq, overt'.shown_eq, overt''.shown_eq]
  | array items, overt => by
    have overt : OvertAll items := overt
    rw [shown, shownAll_eq overt]
  | map entries, overt => by
    have overt : OvertEntries entries := overt
    rw [shown, shownEntries_eq overt]
  | pipe _ _ _ _, ⟨overt, overt'⟩ => by rw [shown, overt.shown_eq, shownAll_eq overt']
  | interpolation _ expressions, overt => by
    have overt : OvertAll expressions := overt
    rw [shown, shownAll_eq overt]

theorem shownAll_eq : {es : List Expr} → OvertAll es → shownAll es = es
  | [], _ => rfl
  | _ :: _, ⟨overt, others⟩ => by rw [shownAll, overt.shown_eq, shownAll_eq others]

theorem shownEntries_eq : {entries : List (String × Expr)} → OvertEntries entries →
    shownEntries entries = entries
  | [], _ => rfl
  | _ :: _, ⟨overt, others⟩ => by rw [shownEntries, overt.shown_eq, shownEntries_eq others]
end

end Expr

/-- The canonical texts of two expressions are equal exactly when they show one expression. -/
theorem canonical_eq_iff {text text' location location' : String} {source source' : Source}
    (read : parse .binding text location = .ok source)
    (read' : parse .binding text' location' = .ok source') :
    source.canonical = source'.canonical ↔ source.expr.shown = source'.expr.shown := by
  obtain ⟨known, numbered⟩ := parse_lexed read
  obtain ⟨known', numbered'⟩ := parse_lexed read'
  unfold Source.canonical
  rw [← Expr.render_shown source.expr, ← Expr.render_shown source'.expr]
  refine ⟨fun same => ?_, congrArg Expr.render⟩
  rw [← Expr.pipeSlots_shown] at numbered numbered'
  exact Expr.render_injective known.shown.1 known.shown.2 numbered known'.shown.1 known'.shown.2
    numbered' same

end ChangeWatch
