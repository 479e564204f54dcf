import ChangeWatch.Proofs.Unparsing.Canonical

/-!
Expressions over a vocabulary: all that is special about an expression is said about its leaves, and about
what it calls. Replacing the leaves leaves the shape of an expression as it is.
-/
namespace ChangeWatch

/-- The constants, the names and the keys that expressions may have, and the values they may call. -/
structure Vocabulary where
  literal : Value → Prop
  name : String → Prop
  key : String → Prop
  called : Expr → Prop

namespace Expr

mutual
/-- An expression over a vocabulary. The context is only the receiver of its members, and no text stands
between its parts. -/
def Over (words : Vocabulary) : Expr → Prop
  | implicit => False
  | literal value => words.literal value
  | property receiver name => (receiver.isImplicit = true ∨ receiver.Over words) ∧ words.name name
  | keyed receiver key => receiver.Over words ∧ key.Over words
  | method receiver name args =>
    (receiver.isImplicit = true ∨ receiver.Over words) ∧ words.name name ∧ OverAll words args
  | apply target args => target.Over words ∧ words.called target ∧ OverAll words args
  | unary _ operand => operand.Over words
  | binary _ left right => left.Over words ∧ right.Over words
  | conditional condition yes no => condition.Over words ∧ yes.Over words ∧ no.Over words
  | array items => OverAll words items
  | map entries => OverEntries words entries
  | pipe exp name args _ => exp.Over words ∧ words.name name ∧ OverAll words args
  | interpolation _ _ => False

def OverAll (words : Vocabulary) : List Expr → Prop
  | [] => True
  | e :: es => e.Over words ∧ OverAll words es

def OverEntries (words : Vocabulary) : List (String × Expr) → Prop
  | [] => True
  | (key, e) :: entries => (words.key key ∧ e.Over words) ∧ OverEntries words entries
end

theorem overAll_iff {words : Vocabulary} {es : List Expr} : OverAll words es ↔ ∀ e ∈ es, e.Over words := by
  induction es with
  | nil => simp [OverAll]
  | cons e es ih => simp [OverAll, ih]

theorem overEntries_iff {words : Vocabulary} {entries : List (String × Expr)} :
    OverEntries words entries ↔ ∀ entry ∈ entries, words.key entry.1 ∧ entry.2.Over words := by
  induction entries with
  | nil => simp [OverEntries]
  | cons entry entries ih => simp [OverEntries, ih]

mutual
/-- The expression with other constants and keys in place of its own. -/
def mapLeaves (value : Value → Value) (key : String → String) : Expr → Expr
  | implicit => implicit
  | literal v => literal (value v)
  | property receiver name => property (receiver.mapLeaves value key) name
  | keyed receiver k => keyed (receiver.mapLeaves value key) (k.mapLeaves value key)
  | method receiver name args => method (receiver.mapLeaves value key) name (mapLeavesAll value key args)
  | apply target args => apply (target.mapLeaves value key) (mapLeavesAll value key args)
  | unary op operand => unary op (operand.mapLeaves value key)
  | binary op left right => binary op (left.mapLeaves value key) (right.mapLeaves value key)
  | conditional condition yes no =>
    conditional (condition.mapLeaves value key) (yes.mapLeaves value key) (no.mapLeaves value key)
  | array items => array (mapLeavesAll value key items)
  | map entries => map (mapLeavesEntries value key entries)
  | pipe exp name args slot => pipe (exp.mapLeaves value key) name (mapLeavesAll value key args) slot
  | interpolation strings expressions => interpolation strings (mapLeavesAll value key expressions)

def mapLeavesAll (value : Value → Value) (key : String → String) : List Expr → List Expr
  | [] => []
  | e :: es => e.mapLeaves value key :: mapLeavesAll value key es

def mapLeavesEntries (value : Value → Value) (key : String → String) :
    List (String × Expr) → List (String × Expr)
  | [] => []
  | (k, e) :: entries => (key k, e.mapLeaves value key) :: mapLeavesEntries value key entries
end

section Laws

variable {value other : Value → Value} {key key' : String → String} {words : Vocabulary}

mutual
theorem mapLeaves_mapLeaves : (e : Expr) →
    (e.mapLeaves value key).mapLeaves other key' = e.mapLeaves (other ∘ value) (key' ∘ key)
  | implicit | literal _ => rfl
  | property receiver _ => by simp only [mapLeaves, mapLeaves_mapLeaves receiver]
  | keyed receiver k => by simp only [mapLeaves, mapLeaves_mapLeaves receiver, mapLeaves_mapLeaves k]
  | method receiver _ args => by
    simp only [mapLeaves, mapLeaves_mapLeaves receiver, mapLeavesAll_mapLeavesAll args]
  | apply target args => by
    simp only [mapLeaves, mapLeaves_mapLeaves target, mapLeavesAll_mapLeavesAll args]
  | unary _ operand => by simp only [mapLeaves, mapLeaves_mapLeaves operand]
  | binary _ left right => by simp only [mapLeaves, mapLeaves_mapLeaves left, mapLeaves_mapLeaves right]
  | conditional condition yes no => by
    simp only [mapLeaves, mapLeaves_mapLeaves condition, mapLeaves_mapLeaves yes, mapLeaves_mapLeaves no]
  | array items => by simp only [mapLeaves, mapLeavesAll_mapLeavesAll items]
  | map entries => by simp only [mapLeaves, mapLeavesEntries_mapLeavesEntries entries]
  | pipe exp _ args _ => by
    simp only [mapLeaves, mapLeaves_mapLeaves exp, mapLeavesAll_mapLeavesAll args]
  | interpolation _ expressions => by simp only [mapLeaves, mapLeavesAll_mapLeavesAll expressions]

theorem mapLeavesAll_mapLeavesAll : (es : List Expr) →
    mapLeavesAll other key' (mapLeavesAll value key es) = mapLeavesAll (other ∘ value) (key' ∘ key) es
  | [] => rfl
  | e :: es => by simp only [mapLeavesAll, mapLeaves_mapLeaves e, mapLeavesAll_mapLeavesAll es]

theorem mapLeavesEntries_mapLeavesEntries : (entries : List (String × Expr)) →
    mapLeavesEntries other key' (mapLeavesEntries value key entries) =
      mapLeavesEntries (other ∘ value) (key' ∘ key) entries
  | [] => rfl
  | (_, e) :: entries => by
    simp only [mapLeavesEntries, mapLeaves_mapLeaves e, mapLeavesEntries_mapLeavesEntries entries,
      Function.comp_apply]
end

mutual
/-- Leaves that are kept make an expression that is kept. -/
theorem mapLeaves_eq (values : ∀ v, words.literal v → value v = v) (keys : ∀ k, words.key k → key k = k) :
    {e : Expr} → e.Over words → e.mapLeaves value key = e
  | literal v, known => by rw [mapLeaves, values v known]
  | property receiver _, ⟨known, _⟩ => by
    rcases known with none | some
    · rw [eq_implicit none]
      rfl
    · rw [mapLeaves, mapLeaves_eq values keys some]
  | keyed _ _, ⟨known, known'⟩ => by
    rw [mapLeaves, mapLeaves_eq values keys known, mapLeaves_eq values keys known']
  | method receiver _ _, ⟨known, _, known'⟩ => by
    rcases known with none | some
    · rw [eq_implicit none, mapLeaves, mapLeavesAll_eq values keys known']
      rfl
    · rw [mapLeaves, mapLeaves_eq values keys some, mapLeavesAll_eq values keys known']
  | apply _ _, ⟨known, _, known'⟩ => by
    rw [mapLeaves, mapLeaves_eq values keys known, mapLeavesAll_eq values keys known']
  | unary _ operand, known => by
    have kept : operand.Over words := known
    rw [mapLeaves, mapLeaves_eq values keys kept]
  | binary _ _ _, ⟨known, known'⟩ => by
    rw [mapLeaves, mapLeaves_eq values keys known, mapLeaves_eq values keys known']
  | conditional _ _ _, ⟨known, known', known''⟩ => by
    rw [mapLeaves, mapLeaves_eq values keys known, mapLeaves_eq values keys known',
      mapLeaves_eq values keys known'']
  | array items, known => by
    have kept : OverAll words items := known
    rw [mapLeaves, mapLeavesAll_eq values keys kept]
  | map entries, known => by
    have kept : OverEntries words entries := known
    rw [mapLeaves, mapLeavesEntries_eq values keys kept]
  | pipe _ _ _ _, ⟨known, _, known'⟩ => by
    rw [mapLeaves, mapLeaves_eq values keys known, mapLeavesAll_eq values keys known']

theorem mapLeavesAll_eq (values : ∀ v, words.literal v → value v = v)
    (keys : ∀ k, words.key k → key k = k) :
    {es : List Expr} → OverAll words es → mapLeavesAll value key es = es
  | [], _ => rfl
  | _ :: _, ⟨known, others⟩ => by
    rw [mapLeavesAll, mapLeaves_eq values keys known, mapLeavesAll_eq values keys others]

theorem mapLeavesEntries_eq (values : ∀ v, words.literal v → value v = v)
    (keys : ∀ k, words.key k → key k = k) :
    {entries : List (String × Expr)} → OverEntries words entries →
    mapLeavesEntries value key entries = entries
  | [], _ => rfl
  | (k, _) :: _, ⟨⟨named, known⟩, others⟩ => by
    rw [mapLeavesEntries, keys k named, mapLeaves_eq values keys known,
      mapLeavesEntries_eq values keys others]
end

end Laws

end Expr
end ChangeWatch
