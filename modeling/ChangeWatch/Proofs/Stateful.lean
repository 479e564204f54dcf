/-!
Laws of computations that keep a state and may fail. A failure keeps the state that it left, so a
sequence is described by the states between its parts. A computation may stay within a relation of the
states before and after it. A computation that tells what it does keeps the telling beside its state. A
computation refines another one when related states lead to related results and states. A computation may
keep something of the state and ensure something of what it finds.
-/
namespace ChangeWatch.Stateful

variable {σ ε α β : Type} {first : ExceptT ε (StateM σ) α} {next : α → ExceptT ε (StateM σ) β}
  {state after : σ}

theorem bind_apply (first : ExceptT ε (StateM σ) α) (next : α → ExceptT ε (StateM σ) β)
    (state : σ) :
    (first >>= next) state = match first state with
      | (.ok value, after) => next value after
      | (.error cause, after) => (.error cause, after) := by
  simp only [Bind.bind, ExceptT.bind, ExceptT.mk, StateT.bind, ExceptT.bindCont]
  rcases first state with ⟨result, after⟩
  cases result <;> rfl

theorem bind_of_ok {value : α} (ran : first state = (.ok value, after)) :
    (first >>= next) state = next value after := by
  rw [bind_apply, ran]

theorem bind_of_error {cause : ε} (ran : first state = (.error cause, after)) :
    (first >>= next) state = (.error cause, after) := by
  rw [bind_apply, ran]

/-- A sequence succeeds when both parts do, one in the state that the other left. -/
theorem bind_ok {value : β} (ran : (first >>= next) state = (.ok value, after)) :
    ∃ middle between, first state = (.ok middle, between) ∧
      next middle between = (.ok value, after) := by
  cases started : first state with
  | mk result between =>
    cases result with
    | error cause =>
      rw [bind_of_error started] at ran
      cases ran
    | ok middle => exact ⟨middle, between, rfl, (bind_of_ok started).symm.trans ran⟩

/-- Sequences with the same first part agree when the others agree on what it leaves. -/
theorem bind_congr {other : α → ExceptT ε (StateM σ) β}
    (same : ∀ value after, first state = (.ok value, after) → next value after = other value after) :
    (first >>= next) state = (first >>= other) state := by
  rw [bind_apply, bind_apply]
  cases ran : first state with
  | mk result after =>
    cases result with
    | error cause => rfl
    | ok value => exact same value after ran

/-- A computation that stays within a relation of the states before and after it, whether it succeeds
or not. -/
def Along (R : σ → σ → Prop) (computation : ExceptT ε (StateM σ) α) : Prop :=
  ∀ state, R state (computation state).2

namespace Along

variable {R : σ → σ → Prop}

section Idle

variable [Std.Refl R]

theorem of_same {computation : ExceptT ε (StateM σ) α}
    (same : ∀ state, (computation state).2 = state) : Along R computation := by
  intro state
  rw [same]
  exact Std.Refl.refl state

theorem pure (value : α) : Along R (pure value : ExceptT ε (StateM σ) α) :=
  of_same fun _ => rfl

theorem throw (cause : ε) : Along R (throw cause : ExceptT ε (StateM σ) α) :=
  of_same fun _ => rfl

end Idle

theorem bind [Trans R R R] (before : Along R first) (rest : ∀ value, Along R (next value)) :
    Along R (first >>= next) := by
  intro state
  have started := before state
  rw [bind_apply]
  cases ran : first state with
  | mk result middle =>
    rw [ran] at started
    cases result with
    | error cause => exact started
    | ok value => exact Trans.trans started (rest value middle)

end Along

/-- The first computation is the second one with some telling: the same result and state. -/
def Tells (told : ExceptT ε (StateM (σ × ι)) α) (plain : ExceptT ε (StateM σ) α) : Prop :=
  ∀ state before, ∃ later, told (state, before) = ((plain state).1, ((plain state).2, later))

namespace Tells

variable {ι : Type}

theorem pure (value : α) :
    Tells (pure value : ExceptT ε (StateM (σ × ι)) α) (pure value : ExceptT ε (StateM σ) α) :=
  fun _ before => ⟨before, rfl⟩

theorem bind {told : ExceptT ε (StateM (σ × ι)) α} {plain : ExceptT ε (StateM σ) α}
    {toldNext : α → ExceptT ε (StateM (σ × ι)) β} {next : α → ExceptT ε (StateM σ) β}
    (first : Tells told plain) (others : ∀ value, Tells (toldNext value) (next value)) :
    Tells (told >>= toldNext) (plain >>= next) := by
  intro state before
  obtain ⟨middle, ran⟩ := first state before
  rw [bind_apply, bind_apply, ran]
  rcases plain state with ⟨result, between⟩
  cases result with
  | error cause => exact ⟨middle, rfl⟩
  | ok value => exact others value between middle

end Tells

/-- Results that are the same failure, or successes in a relation. -/
inductive Agree (V : α → β → Prop) : Except ε α → Except ε β → Prop where
  | ok {value : α} {image : β} (related : V value image) : Agree V (.ok value) (.ok image)
  | error (cause : ε) : Agree V (.error cause) (.error cause)

theorem Agree.refl {V : α → α → Prop} (reflexive : ∀ value, V value value) :
    (result : Except ε α) → Agree V result result
  | .ok value => .ok (reflexive value)
  | .error cause => .error cause

theorem Agree.mono {V W : α → β → Prop} {result : Except ε α} {image : Except ε β}
    (agree : Agree V result image) (implied : ∀ value image, V value image → W value image) :
    Agree W result image := by
  cases agree with
  | ok related => exact .ok (implied _ _ related)
  | error cause => exact .error cause

theorem Agree.eq {result image : Except ε α} (agree : Agree Eq result image) : result = image := by
  cases agree with
  | ok same => exact congrArg Except.ok same
  | error cause => rfl

theorem Agree.eq_map {f : α → β} {result : Except ε α} {image : Except ε β}
    (agree : Agree (fun value image => image = f value) result image) : image = result.map f := by
  cases agree with
  | ok same => exact congrArg Except.ok same
  | error cause => rfl

/-- From related states, the first computation does what the second one does, up to a relation on
values. -/
def Refines (R : σ → τ → Prop) (V : α → β → Prop) (real : ExceptT ε (StateM σ) α)
    (model : ExceptT ε (StateM τ) β) : Prop :=
  ∀ state image, R state image →
    Agree V (real state).1 (model image).1 ∧ R (real state).2 (model image).2

namespace Refines

variable {τ α' β' : Type} {R : σ → τ → Prop} {V : α → α' → Prop} {W : β → β' → Prop}

theorem pure {value : α} {image : α'} (related : V value image) :
    Refines R V (pure value : ExceptT ε (StateM σ) α) (pure image : ExceptT ε (StateM τ) α') :=
  fun _ _ states => ⟨.ok related, states⟩

theorem throw (cause : ε) :
    Refines R V (throw cause : ExceptT ε (StateM σ) α)
      (throw cause : ExceptT ε (StateM τ) α') :=
  fun _ _ states => ⟨.error cause, states⟩

theorem bind {real : ExceptT ε (StateM σ) α} {model : ExceptT ε (StateM τ) α'}
    {realNext : α → ExceptT ε (StateM σ) β} {modelNext : α' → ExceptT ε (StateM τ) β'}
    (first : Refines R V real model)
    (next : ∀ value image, V value image → Refines R W (realNext value) (modelNext image)) :
    Refines R W (real >>= realNext) (model >>= modelNext) := by
  intro state image states
  have ran := first state image states
  rw [bind_apply, bind_apply]
  generalize real state = ended at ran ⊢
  generalize model image = endedModel at ran ⊢
  obtain ⟨result, between⟩ := ended
  obtain ⟨other, betweenImage⟩ := endedModel
  obtain ⟨results, after⟩ : Agree V result other ∧ R between betweenImage := ran
  cases results with
  | error cause => exact ⟨.error cause, after⟩
  | ok related => exact next _ _ related between betweenImage after

theorem mono {V' : α → α' → Prop} {real : ExceptT ε (StateM σ) α}
    {model : ExceptT ε (StateM τ) α'} (refines : Refines R V real model)
    (implied : ∀ value image, V value image → V' value image) : Refines R V' real model := by
  intro state image states
  obtain ⟨results, after⟩ := refines state image states
  exact ⟨results.mono implied, after⟩

end Refines

/-- A failure finds no value. -/
theorem error_finds {V : α → Prop} (cause : ε) :
    ∀ value, (.error cause : Except ε α) = .ok value → V value := nofun

/-- A computation that keeps something of the state, and that finds only values with something. -/
def Ensures (K : σ → Prop) (V : α → Prop) (computation : ExceptT ε (StateM σ) α) : Prop :=
  ∀ state, K state →
    K (computation state).2 ∧ ∀ value, (computation state).1 = .ok value → V value

namespace Ensures

variable {K : σ → Prop} {V : α → Prop} {W : β → Prop}

theorem pure {value : α} (holds : V value) :
    Ensures K V (pure value : ExceptT ε (StateM σ) α) := by
  refine fun _ kept => ⟨kept, fun found same => ?_⟩
  cases same
  exact holds

theorem bind (before : Ensures K V first) (rest : ∀ value, V value → Ensures K W (next value)) :
    Ensures K W (first >>= next) := by
  intro state kept
  obtain ⟨keeps, found⟩ := before state kept
  rw [bind_apply]
  cases ran : first state with
  | mk result middle =>
    rw [ran] at keeps found
    cases result with
    | error cause => exact ⟨keeps, nofun⟩
    | ok value => exact rest value (found value rfl) middle keeps

end Ensures

end ChangeWatch.Stateful
