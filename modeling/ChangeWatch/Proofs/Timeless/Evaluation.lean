import ChangeWatch.Proofs.Strategies
import ChangeWatch.Proofs.Timeless.Access
import ChangeWatch.Proofs.Timeless.Operators
import ChangeWatch.Proofs.Timeless.Slots

/-!
Evaluation without time. From some moment on, every evaluation of a watched expression does what the one
at that moment does on the images of its pipe slots, and finds a value with the same image.
-/
namespace ChangeWatch

open Stateful (Agree Refines)
open Value (Image)

namespace Expr

mutual
/-- An expression at the end of a path. Every pipe slot is owned by the path of its pipe, and literals
are scalars. -/
def Placed (owner : Nat → List Nat) (path : List Nat) : Expr → Prop
  | implicit => True
  | literal value => value.IsScalar
  | property receiver _ => Placed owner (0 :: path) receiver
  | keyed receiver key => Placed owner (0 :: path) receiver ∧ Placed owner (1 :: path) key
  | method receiver _ args =>
    Placed owner (0 :: path) receiver ∧ PlacedAll owner path 1 args
  | apply target args => Placed owner (0 :: path) target ∧ PlacedAll owner path 1 args
  | unary _ operand => Placed owner (0 :: path) operand
  | binary _ left right => Placed owner (0 :: path) left ∧ Placed owner (1 :: path) right
  | conditional condition yes no =>
    Placed owner (0 :: path) condition ∧ Placed owner (1 :: path) yes ∧
      Placed owner (2 :: path) no
  | array items => PlacedAll owner path 0 items
  | map entries => PlacedEntries owner path 0 entries
  | pipe exp _ args slot =>
    Placed owner (0 :: path) exp ∧ PlacedAll owner path 1 args ∧ owner slot = path
  | interpolation _ expressions => PlacedAll owner path 0 expressions

def PlacedAll (owner : Nat → List Nat) (path : List Nat) (index : Nat) : List Expr → Prop
  | [] => True
  | e :: es => Placed owner (index :: path) e ∧ PlacedAll owner path (index + 1) es

def PlacedEntries (owner : Nat → List Nat) (path : List Nat) (index : Nat) :
    List (String × Expr) → Prop
  | [] => True
  | (_, e) :: entries =>
    Placed owner (index :: path) e ∧ PlacedEntries owner path (index + 1) entries
end

end Expr

variable [Epoch]

/-- A watched expression in one state of an application. The mirror of the application, which has no
state, does not see time either, and the slots of the pipes have owners. -/
structure Situation (σ : Type) where
  host : Host σ
  mirror : Host Unit
  state : σ
  mirrors : host.Mirrors state mirror
  calm : mirror.Mirrors () mirror
  scope : Scope
  foreign : scope.Foreign
  hosted : HostedPipes σ Empty
  detector : Nat
  index : Nat
  owner : Nat → List Nat

namespace Situation

variable (s : Situation σ)

def place : Place := .ofBinding s.detector s.index

/-- What an evaluation depends on. -/
def real : Setting σ (List (PipeSlot Empty)) where
  host := s.host
  pipes := PipeSlot.host (.default s.hosted) (.part 1 s.place)
  scope := s.scope

/-- What an evaluation depends on without time. -/
def model : Setting Unit (List Still) where
  host := s.mirror
  pipes := Still.host (.part 1 s.place)
  scope := s.scope

/-- Where a part of the expression makes containers. -/
def Made (path : List Nat) : Place → Prop := Place.Grown s.place s.owner path

/-- A computation and its image, from slots and their images to slots and their images. -/
abbrev Images (V : α → β → Prop) (real : Eval σ (List (PipeSlot Empty)) α)
    (model : Eval Unit (List Still) β) : Prop :=
  Refines (PipeSlot.Kept s.state s.place s.owner) V real model

/-- Values and their images. -/
def Values (P : Place → Prop) (values images : List Value) : Prop :=
  images = values.map Value.timeless ∧ ∀ value ∈ values, value.Sound P

variable {s}

theorem image_of_part {path : List Nat} {step : Nat} {value image : Value}
    (seen : Image (s.Made (step :: path)) value image) : Image (s.Made path) value image :=
  ⟨seen.1, seen.2.mono fun _ => Place.Grown.of_part⟩

theorem access {P : Place → Prop} {access : Access σ Value} {mirror : Access Unit Value}
    (mirrored : access.Mirrored P s.state mirror) :
    s.Images (Image P) (.access access) (.access mirror) := by
  rintro ⟨current, slots⟩ ⟨_, stills⟩ ⟨rfl, images, sound⟩
  obtain ⟨results, stays⟩ := mirrored s.state () rfl
  simp only [Eval.access]
  generalize access s.state = ended at results stays ⊢
  generalize mirror () = endedMirror at results ⊢
  obtain ⟨result, after⟩ := ended
  obtain ⟨other, _⟩ := endedMirror
  change Agree _ result other at results
  cases results with
  | error cause => exact ⟨.error _, stays, images, sound⟩
  | ok related => exact ⟨.ok related, stays, images, sound⟩

theorem ofExcept {P : Place → Prop} {result : Except EvalError Value}
    (foreign : ∀ value, result = .ok value → value.Foreign) :
    s.Images (Image P) (.ofExcept result) (.ofExcept result) := by
  intro state model kept
  refine ⟨?_, kept⟩
  cases result with
  | error cause => exact .error cause
  | ok value => exact .ok (.of_foreign (foreign value rfl))

section Literals

variable {path : List Nat} {whole : Place}

/-- The numbers of the evaluations in which code was prepared and is run, and numbers that they become
without time. Code that was prepared elsewhere is the same code without time. -/
structure Paced (s : Situation σ) (m n m' n' : Nat) : Prop where
  origin : Place.Timed (s.place.evaluation m) (s.place.evaluation m')
  base : Place.Timed (s.place.evaluation n) (s.place.evaluation n')
  alike : m = m' ∨ m = n ∧ m' = n'

theorem made_evaluation (number : Nat) (path : List Nat) :
    s.Made path ((s.place.evaluation number).within path) :=
  .literal number []

/-- The container of a literal, without time. -/
theorem made_literal (paced : s.Paced m n m' n') (codes : Place → List Code) (path : List Nat) :
    let maker (m n : Nat) :=
      Expr.maker (s.place.evaluation m) (s.place.evaluation n) (codes (s.place.evaluation m))
    s.Made path ((maker m n).within path) ∧
      ((maker m n).within path).timeless = (maker m' n').within path := by
  obtain ⟨origin, base, rfl | ⟨rfl, rfl⟩⟩ := paced
  · simp only [Expr.maker]
    split
    · exact ⟨made_evaluation m path, origin path⟩
    · exact ⟨made_evaluation n path, base path⟩
  · simp only [Expr.maker_self]
    exact ⟨made_evaluation m path, base path⟩

theorem image_list (made : s.Made path whole) {values images : List Value}
    (seen : Values (s.Made path) values images) :
    Image (s.Made path) (.list whole values) (.list whole.timeless images) := by
  obtain ⟨rfl, sound⟩ := seen
  refine ⟨?_, .inr made, Value.soundItems_iff.mpr sound⟩
  rw [Value.timeless, Value.timelessItems_eq_map]

theorem image_map (made : s.Made path whole) (keys : List String) {values images : List Value}
    (seen : Values (s.Made path) values images) :
    Image (s.Made path) (.map whole (Entries.ofList (keys.zip values)))
      (.map whole.timeless (Entries.ofList (keys.zip images))) := by
  obtain ⟨rfl, sound⟩ := seen
  refine ⟨?_, .inr made, (Entries.ofList_sorted _).distinct, Value.soundEntries_iff.mpr ?_⟩
  · rw [Value.timeless, Value.timelessEntries_eq_mapValues, ← Entries.ofList_mapValues,
      List.zip_map_right]
    rfl
  · intro entry member
    exact sound _ (List.of_mem_zip (Entries.mem_of_mem_ofList member)).2

theorem values_cons {value image : Value} {values images : List Value} {step : Nat}
    (first : Image (s.Made (step :: path)) value image)
    (others : Values (s.Made path) values images) :
    Values (s.Made path) (value :: values) (image :: images) := by
  obtain ⟨rfl, sound⟩ := image_of_part first
  obtain ⟨rfl, sounds⟩ := others
  exact ⟨rfl, List.forall_mem_cons.mpr ⟨sound, sounds⟩⟩

end Literals

section Operands

variable {path : List Nat} {place home : Place}

theorem binary_images (op : BinaryOp) {left right l r : Code}
    (first : s.Images (Image (s.Made (0 :: path))) (left.run s.real place) (l.run s.model home))
    (second : s.Images (Image (s.Made (1 :: path))) (right.run s.real place)
      (r.run s.model home)) :
    s.Images (Image (s.Made path)) ((Code.binary op left right).run s.real place)
      ((Code.binary op l r).run s.model home) := by
  cases op with
  | and =>
    simp only [Code.run]
    refine first.bind fun value image seen => ?_
    rw [seen.1, Value.truthy_timeless]
    split
    · refine second.bind fun other otherImage seen => ?_
      rw [seen.1, Value.truthy_timeless]
      exact .pure (.of_foreign trivial)
    · exact .pure (.of_foreign trivial)
  | or =>
    simp only [Code.run]
    refine first.bind fun value image seen => ?_
    rw [seen.1, Value.truthy_timeless]
    split
    · exact .pure (.of_foreign trivial)
    · refine second.bind fun other otherImage seen => ?_
      rw [seen.1, Value.truthy_timeless]
      exact .pure (.of_foreign trivial)
  | _ =>
    have apart : Value.Apart (s.Made (0 :: path)) (s.Made (1 :: path)) :=
      Place.Grown.apart Nat.zero_ne_one
    simp only [Code.run]
    refine first.bind fun value image seen => second.bind fun other otherImage others => ?_
    rw [seen.1, others.1, BinaryOp.apply_timeless apart _ seen.2 others.2]
    exact ofExcept fun _ => BinaryOp.apply_foreign

/-- A pipe and what is made of its application. -/
theorem pipe_images {slot : Nat} (owned : s.owner slot = path) (name : String)
    {exp : Eval σ (List (PipeSlot Empty)) Value} {args : Eval σ (List (PipeSlot Empty)) (List Value)}
    {e : Eval Unit (List Still) Value} {es : Eval Unit (List Still) (List Value)}
    (first : s.Images (Image (s.Made (0 :: path))) exp e)
    (others : s.Images (Values (s.Made path)) args es)
    {f : Applied → β} {g : Applied → γ} {V : β → γ → Prop}
    (outcomes : ∀ applied : Applied, applied.value.Sound (s.Made path) →
      V (f applied) (g applied.timeless)) :
    s.Images V
      (do
        let value ← exp
        let args ← args
        let applied ← s.real.pipes.apply slot name value args
        return f applied)
      (do
        let value ← e
        let args ← es
        let applied ← s.model.pipes.apply slot name value args
        return g applied) := by
  subst owned
  refine first.bind fun value image seen => ?_
  refine others.bind fun values images _ => ?_
  obtain ⟨rfl, sound⟩ := image_of_part seen
  refine Refines.bind (PipeSlot.host_refines s.hosted s.state slot name sound)
    fun applied image same => ?_
  obtain ⟨rfl, made⟩ := same
  exact .pure (outcomes applied made)

end Operands

section Run

variable {m n m' n' : Nat}

mutual
theorem run_images (paced : s.Paced m n m' n') (path : List Nat) : (e : Expr) →
    e.Placed s.owner path →
    s.Images (Image (s.Made path))
      ((e.lower (s.place.evaluation m) path).run s.real (s.place.evaluation n))
      ((e.lower (s.place.evaluation m') path).run s.model (s.place.evaluation n'))
  | .implicit, _ => by
    simp only [Expr.lower, Code.run]
    exact .pure (.of_foreign s.foreign.context)
  | .literal value, scalar => by
    simp only [Expr.lower, Code.run]
    exact .pure (.of_foreign (Value.IsScalar.foreign scalar))
  | .property receiver name, placed => by
    simp only [Expr.lower]
    split
    · simp only [Code.run]
      exact access (.readName s.mirrors s.foreign name)
    · simp only [Code.run]
      refine (run_images paced (0 :: path) receiver placed).bind fun value image seen => ?_
      exact access (.readField s.mirrors (image_of_part seen) name)
  | .keyed receiver key, placed => by
    simp only [Expr.lower, Code.run]
    refine (run_images paced (0 :: path) receiver placed.1).bind fun value image seen => ?_
    refine (run_images paced (1 :: path) key placed.2).bind fun keyValue keyImage keySeen => ?_
    exact access (.readKeyed s.mirrors (image_of_part seen) keySeen.1)
  | .method receiver name args, placed => by
    simp only [Expr.lower]
    split
    · simp only [Code.run]
      refine (runAll_images paced path 1 args placed.2).bind fun values images seen => ?_
      obtain ⟨rfl, sound⟩ := seen
      exact access (.callName s.mirrors s.foreign name sound)
    · simp only [Code.run]
      refine (run_images paced (0 :: path) receiver placed.1).bind fun value image seen => ?_
      refine (runAll_images paced path 1 args placed.2).bind fun values images others => ?_
      obtain ⟨rfl, sound⟩ := others
      exact access (.invoke s.mirrors (image_of_part seen) name sound)
  | .apply target args, placed => by
    simp only [Expr.lower, Code.run]
    refine (run_images paced (0 :: path) target placed.1).bind fun value image seen => ?_
    refine (runAll_images paced path 1 args placed.2).bind fun values images others => ?_
    obtain ⟨rfl, sound⟩ := others
    exact access (.call s.mirrors _ (image_of_part seen) sound)
  | .unary op operand, placed => by
    simp only [Expr.lower, Code.run_ofUnary, Code.run]
    refine (run_images paced (0 :: path) operand placed).bind fun value image seen => ?_
    rw [seen.1, op.apply_timeless]
    exact ofExcept fun _ => UnaryOp.apply_foreign
  | .binary op left right, placed => by
    rw [Expr.lower, Expr.lower, Code.run_ofBinary, Code.run_ofBinary]
    exact binary_images op (run_images paced (0 :: path) left placed.1)
      (run_images paced (1 :: path) right placed.2)
  | .conditional condition yes no, placed => by
    rw [Expr.run_lower_conditional, Expr.run_lower_conditional]
    refine (run_images paced (0 :: path) condition placed.1).bind fun value image seen => ?_
    rw [seen.1, Value.truthy_timeless]
    split
    · exact (run_images paced (1 :: path) yes placed.2.1).mono fun _ _ => image_of_part
    · exact (run_images paced (2 :: path) no placed.2.2).mono fun _ _ => image_of_part
  | .array items, placed => by
    obtain ⟨known, home⟩ := made_literal paced (Expr.lowerAll · path 0 items) path
    rw [Expr.run_lower_array, Expr.run_lower_array, ← home]
    exact (runAll_images paced path 0 items placed).bind fun _ _ seen =>
      .pure (image_list known seen)
  | .map entries, placed => by
    obtain ⟨known, home⟩ := made_literal paced (Expr.lowerEntries · path 0 entries) path
    rw [Expr.run_lower_map, Expr.run_lower_map, ← home]
    refine (runEntries_images paced path 0 entries placed).bind fun values images seen => ?_
    exact .pure (image_map known _ seen)
  | .pipe exp name args slot, placed => by
    simp only [Expr.lower, Code.run]
    refine pipe_images placed.2.2 name (run_images paced (0 :: path) exp placed.1)
      (runAll_images paced path 1 args placed.2.1) fun applied sound => ⟨?_, sound⟩
    cases applied <;> rfl
  | .interpolation strings expressions, placed => by
    simp only [Expr.lower, Code.run]
    refine (runText_images paced path 0 strings expressions placed).bind fun text image same => ?_
    rw [same]
    exact .pure (.of_foreign trivial)

theorem runAll_images (paced : s.Paced m n m' n') (path : List Nat) (index : Nat) :
    (es : List Expr) →
    Expr.PlacedAll s.owner path index es →
    s.Images (Values (s.Made path))
      (Code.runAll s.real (s.place.evaluation n)
        (Expr.lowerAll (s.place.evaluation m) path index es))
      (Code.runAll s.model (s.place.evaluation n')
        (Expr.lowerAll (s.place.evaluation m') path index es))
  | [], _ => by
    simp only [Expr.lowerAll, Code.runAll]
    exact .pure ⟨rfl, fun _ impossible => nomatch impossible⟩
  | e :: es, placed => by
    simp only [Expr.lowerAll, Code.runAll]
    refine (run_images paced (index :: path) e placed.1).bind fun value image seen => ?_
    refine (runAll_images paced path (index + 1) es placed.2).bind fun values images others => ?_
    exact .pure (values_cons seen others)

theorem runEntries_images (paced : s.Paced m n m' n') (path : List Nat) (index : Nat) :
    (entries : List (String × Expr)) →
    Expr.PlacedEntries s.owner path index entries →
    s.Images (Values (s.Made path))
      (Code.runAll s.real (s.place.evaluation n)
        (Expr.lowerEntries (s.place.evaluation m) path index entries))
      (Code.runAll s.model (s.place.evaluation n')
        (Expr.lowerEntries (s.place.evaluation m') path index entries))
  | [], _ => by
    simp only [Expr.lowerEntries, Code.runAll]
    exact .pure ⟨rfl, fun _ impossible => nomatch impossible⟩
  | (key, e) :: entries, placed => by
    simp only [Expr.lowerEntries, Code.runAll]
    refine (run_images paced (index :: path) e placed.1).bind fun value image seen => ?_
    refine (runEntries_images paced path (index + 1) entries placed.2).bind
      fun values images others => ?_
    exact .pure (values_cons seen others)

theorem runText_images (paced : s.Paced m n m' n') (path : List Nat) (index : Nat) :
    (strings : List String) →
    (es : List Expr) → Expr.PlacedAll s.owner path index es →
    s.Images (fun text image => image = text)
      (Code.runText s.real (s.place.evaluation n) strings
        (Expr.lowerAll (s.place.evaluation m) path index es))
      (Code.runText s.model (s.place.evaluation n') strings
        (Expr.lowerAll (s.place.evaluation m') path index es))
  | strings, [], _ => by
    cases strings <;> simp only [Expr.lowerAll, Code.runText] <;> exact .pure rfl
  | [], e :: es, _ => by
    simp only [Expr.lowerAll, Code.runText]
    exact .pure rfl
  | text :: strings, e :: es, placed => by
    simp only [Expr.lowerAll, Code.runText]
    refine (run_images paced (index :: path) e placed.1).bind fun value image seen => ?_
    refine (runText_images paced path (index + 1) strings es placed.2).bind
      fun rest image same => ?_
    rw [seen.1, Value.display_timeless, same]
    exact .pure rfl
end

end Run

end Situation

noncomputable def Outcome.timeless : Outcome → Outcome
  | .value found => .value found.timeless
  | .noChange => .noChange

namespace Situation

variable {s : Situation σ} {m n m' n' : Nat}

theorem program_images (paced : s.Paced m n m' n') {e : Expr} (placed : e.Placed s.owner []) :
    s.Images (fun outcome image => image = outcome.timeless)
      ((Program.ofExpr (s.place.evaluation m) e).evaluate s.real (s.place.evaluation n))
      ((Program.ofExpr (s.place.evaluation m') e).evaluate s.model (s.place.evaluation n')) := by
  have found := run_images paced [] e placed
  cases e with
  | pipe exp name args slot =>
    simp only [Program.ofExpr, Program.evaluate]
    refine pipe_images placed.2.2 name (run_images paced [0] exp placed.1)
      (runAll_images paced [] 1 args placed.2.1) fun applied _ => ?_
    cases applied <;> rfl
  | _ =>
    simp only [Program.ofExpr, Program.evaluate]
    refine found.bind fun value image seen => ?_
    rw [seen.1]
    exact .pure rfl

end Situation
end ChangeWatch
