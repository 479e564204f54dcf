import ChangeWatch.Proofs.Judgements
import ChangeWatch.Proofs.Timeless.Application
import ChangeWatch.Proofs.Timeless.Settling

/-!
A watched expression without time. What a check finds and what the expression remembers afterwards are
the same for all watched expressions with one image. An expression that was just checked is settled:
every further check finds it as it is.
-/
namespace ChangeWatch

open Stateful (Agree)

variable [Epoch]

noncomputable def Cached.timeless : Cached → Cached
  | .uninitialized => .uninitialized
  | .set value => .set value.timeless

theorem Cached.differsFrom_timeless (cached : Cached) (current : Value) :
    cached.timeless.differsFrom current.timeless = cached.differsFrom current := by
  cases cached with
  | uninitialized => rfl
  | set previous => simp only [timeless, differsFrom, Value.identical_timeless]

noncomputable def ChangeRecord.timeless (record : ChangeRecord) : ChangeRecord :=
  { record with previous := record.previous.timeless, current := record.current.timeless }

noncomputable def Finding.timeless : Finding → Finding
  | .changed record => .changed record.timeless
  | finding => finding

namespace Binding

/-- What a watched expression remembers, without time. -/
structure Image where
  id : Label
  group : Label
  previous : Cached
  stills : List Still

noncomputable def image (binding : Binding Empty) : Image where
  id := binding.id
  group := binding.group
  previous := binding.previous.timeless
  stills := binding.slots.map PipeSlot.image

end Binding

/-- An expression at a position of a detector, with owners for its pipe slots. The strategy is one by
which it is evaluated at the epoch. -/
structure Watch where
  detector : Nat
  index : Nat
  strategy : Strategy
  source : Source
  owner : Nat → List Nat
  placed : source.expr.Placed owner []

namespace Watch

def place (watch : Watch) : Place := .ofBinding watch.detector watch.index

/-- The slots of the expression hold what their parts of it make. -/
def Keeps (watch : Watch) (slots : List (PipeSlot Empty)) : Prop :=
  ∀ (index : Nat) (slot : PipeSlot Empty), slots[index]? = some slot →
    slot.Sound (Place.Grown watch.place watch.owner (watch.owner index)) (watch.place.slot index)

/-- A watched expression after any checks. What evaluations from now on make was yet to be made at the
epoch, and the containers of prepared code are those of the first evaluation. -/
structure Holds (watch : Watch) (binding : Binding Empty) : Prop where
  place : binding.place = watch.place
  evaluator : ∃ strategy, binding.evaluator = .make strategy watch.source (.part 0 watch.place) ∧
    (strategy = watch.strategy ∨ Epoch.number = 0)
  origin : Place.Timed (watch.place.evaluation 0) (watch.place.evaluation 0)
  later : ∀ number, binding.evaluations ≤ number → ∀ path,
    Epoch.Yet ((watch.place.evaluation number).within path)
  keeps : watch.Keeps binding.slots

/-- The evaluation at the epoch. -/
def look (watch : Watch) (mirror : Host Unit) (scope : Scope) : Eval Unit (List Still) Outcome :=
  (Evaluator.make watch.strategy watch.source (.part 0 watch.place)).evaluate
    { host := mirror, pipes := Still.host (.part 1 watch.place), scope }
    (.part 0 watch.place) Epoch.number

/-- What the expression remembers agrees with what there is to see. -/
def Settled (watch : Watch) (mirror : Host Unit) (scope : Scope) (image : Binding.Image) : Prop :=
  ∃ outcome, watch.look mirror scope ((), image.stills) = (.ok outcome, ((), image.stills)) ∧
    ∀ value, outcome = .value value → image.previous.differsFrom value = false

variable {watch : Watch} {scope : Scope} {app : Application σ ν} {state : σ}
  {binding : Binding Empty}

/-- The surroundings of the expression in a state of an application. -/
def situation (watch : Watch) (app : Application σ ν) (hosted : HostedPipes σ Empty) {state : σ}
    (foreign : scope.Foreign) (sane : app.Sane (app.view state)) : Situation σ where
  host := app.host
  mirror := app.mirror (app.view state)
  state := state
  mirrors := app.mirrors state sane
  calm := app.calm _ sane
  scope := scope
  foreign := foreign
  hosted := hosted
  detector := watch.detector
  index := watch.index
  owner := watch.owner

/-- The strategies differ by the containers that code prepares, which are made at the first
evaluation. -/
theorem look_eq {strategy : Strategy} (same : strategy = watch.strategy ∨ Epoch.number = 0)
    (mirror : Host Unit) (scope : Scope) :
    watch.look mirror scope = (Evaluator.make strategy watch.source (.part 0 watch.place)).evaluate
      { host := mirror, pipes := Still.host (.part 1 watch.place), scope }
      (.part 0 watch.place) Epoch.number := by
  rcases same with rfl | first
  · rfl
  · rw [look, first]
    cases strategy <;> cases watch.strategy <;>
      first | rfl | rw [Evaluator.evaluate_make_compiled]

theorem evaluate_images (hosted : HostedPipes σ Empty) (holds : watch.Holds binding)
    (foreign : scope.Foreign) (sane : app.Sane (app.view state)) :
    (watch.situation app hosted foreign sane).Images
      (fun outcome image => image = outcome.timeless)
      (binding.evaluator.evaluate (watch.situation app hosted foreign sane).real (.part 0 watch.place)
        binding.evaluations)
      (watch.look (app.mirror (app.view state)) scope) := by
  obtain ⟨strategy, evaluator, same⟩ := holds.evaluator
  have base : Place.Timed (watch.place.evaluation binding.evaluations)
      (watch.place.evaluation Epoch.number) := fun inner =>
    Place.timeless_evaluation (holds.later binding.evaluations (Nat.le_refl _) inner)
  rw [evaluator, look_eq same]
  cases strategy with
  | interpreted =>
    have paced : (watch.situation app hosted foreign sane).Paced binding.evaluations
        binding.evaluations Epoch.number Epoch.number := ⟨base, base, .inr ⟨rfl, rfl⟩⟩
    simp only [Evaluator.make, Evaluator.evaluate, ← Program.evaluate_ofExpr]
    exact Situation.program_images paced watch.placed
  | compiled =>
    have paced : (watch.situation app hosted foreign sane).Paced 0 binding.evaluations 0
        Epoch.number := ⟨holds.origin, base, .inl rfl⟩
    exact Situation.program_images paced watch.placed

theorem look_settles (foreign : scope.Foreign) (sane : app.Sane (app.view state)) :
    Settles (fun _ => True) (fun _ => True)
      (fun outcome again : Outcome => again = outcome ∨ again = .noChange)
      (watch.look (app.mirror (app.view state)) scope) := by
  let hosted : HostedPipes σ Empty := ⟨Empty.elim, Empty.elim, Empty.elim⟩
  have settles (origin base : Place) :=
    (watch.situation app hosted foreign sane).program_settles origin base watch.placed
  rw [look]
  cases watch.strategy with
  | interpreted =>
    simp only [Evaluator.make, Evaluator.evaluate, ← Program.evaluate_ofExpr]
    exact settles _ _
  | compiled => exact settles _ _

theorem evaluate_image (hosted : HostedPipes σ Empty) (holds : watch.Holds binding)
    (foreign : scope.Foreign) (sane : app.Sane (app.view state)) :
    ∃ result slots,
      binding.evaluate app.host (.default hosted) scope state =
        ((result, { binding with slots, evaluations := binding.evaluations + 1 }), state) ∧
      watch.Holds { binding with slots, evaluations := binding.evaluations + 1 } ∧
      watch.look (app.mirror (app.view state)) scope ((), binding.slots.map PipeSlot.image) =
        (result.map Outcome.timeless, ((), slots.map PipeSlot.image)) := by
  have images := evaluate_images hosted holds foreign sane
  obtain ⟨place, evaluator, origin, later, keeps⟩ := holds
  obtain ⟨results, kept⟩ := images (state, binding.slots) ((), binding.slots.map PipeSlot.image)
    ⟨rfl, rfl, keeps⟩
  refine ⟨_, _, ?_, ⟨place, evaluator, origin, ?_, kept.sound⟩,
    Prod.ext results.eq_map (Prod.ext rfl kept.images)⟩
  · unfold Binding.evaluate
    rw [place]
    exact Prod.ext rfl kept.state
  · intro number behind
    exact later number (Nat.le_of_succ_le behind)

theorem Holds.judge (holds : watch.Holds binding) (purpose : Purpose)
    (result : Except EvalError Outcome) : watch.Holds (binding.judge purpose result).2 := by
  obtain ⟨place, evaluator, origin, later, keeps⟩ := holds
  obtain ⟨previous, left⟩ := (binding.judged purpose result).left
  rw [left]
  exact ⟨place, evaluator, origin, later, keeps⟩

theorem Holds.source (holds : watch.Holds binding) : binding.evaluator.source = watch.source := by
  obtain ⟨strategy, evaluator, -⟩ := holds.evaluator
  rw [evaluator, Evaluator.source_make]

/-- A check leaves the application as it is. -/
theorem Holds.check_state (holds : watch.Holds binding) (hosted : HostedPipes σ Empty)
    (foreign : scope.Foreign) (sane : app.Sane (app.view state)) (purpose : Purpose) :
    (binding.check app.host (.default hosted) scope purpose state).2 = state := by
  obtain ⟨result, slots, evaluated, -⟩ := evaluate_image hosted holds foreign sane
  rw [Binding.check_eq evaluated]

theorem holds_of_mem {watches : List Watch} {bindings : List (Binding Empty)}
    (holds : List.Forall₂ Watch.Holds watches bindings) (member : binding ∈ bindings) :
    ∃ watch : Watch, watch.Holds binding := by
  induction holds with
  | nil => cases member
  | cons first _ ih =>
    rcases List.mem_cons.mp member with rfl | later
    · exact ⟨_, first⟩
    · exact ih later

theorem judge_image {first second : Binding Empty} {result other : Except EvalError Outcome}
    (same : first.image = second.image) (source : first.evaluator.source = second.evaluator.source)
    (results : result.map Outcome.timeless = other.map Outcome.timeless) :
    (first.judge .detect result).1.timeless = (second.judge .detect other).1.timeless ∧
      (first.judge .detect result).2.image = (second.judge .detect other).2.image := by
  simp only [Binding.image, Binding.Image.mk.injEq] at same ⊢
  obtain ⟨id, group, previous, stills⟩ := same
  have differs {current current' : Value} (values : current.timeless = current'.timeless) :
      first.previous.differsFrom current = second.previous.differsFrom current' := by
    rw [← Cached.differsFrom_timeless, previous, values, Cached.differsFrom_timeless]
  cases result with
  | error cause =>
    cases other with
    | ok outcome => cases results
    | error cause' =>
      cases results
      simp only [Binding.judge, source, id, group, previous, stills, and_self]
  | ok outcome =>
    cases other with
    | error cause => cases results
    | ok outcome' =>
      have outcomes : outcome.timeless = outcome'.timeless := Except.ok.inj results
      cases outcome with
      | noChange =>
        cases outcome' with
        | value current => cases outcomes
        | noChange => simp only [Binding.judge, id, group, previous, stills, and_self]
      | value current =>
        cases outcome' with
        | noChange => cases outcomes
        | value current' =>
          have values : current.timeless = current'.timeless := Outcome.value.inj outcomes
          simp only [Binding.judge, differs values]
          split
          · exact ⟨rfl, id, group, previous, stills⟩
          · refine ⟨?_, id, group, ?_, stills⟩
            · simp only [Finding.timeless, ChangeRecord.timeless, id, previous, values]
            · simp only [Cached.timeless, values]

/-- Checks of two watched expressions with one image find the same and leave one image. -/
theorem check_image (hosted : HostedPipes σ Empty) {first second : Binding Empty} {state' : σ}
    (holds : watch.Holds first) (holds' : watch.Holds second) (foreign : scope.Foreign)
    (sane : app.Sane (app.view state))
    (views : app.view state' = app.view state) (same : first.image = second.image) :
    ∃ finding after finding' after',
      first.check app.host (.default hosted) scope .detect state = ((finding, after), state) ∧
      second.check app.host (.default hosted) scope .detect state' = ((finding', after'), state') ∧
      watch.Holds after ∧ watch.Holds after' ∧ finding.timeless = finding'.timeless ∧
      after.image = after'.image := by
  obtain ⟨result, slots, evaluated, stays, looked⟩ :=
    evaluate_image hosted holds foreign sane
  obtain ⟨result', slots', evaluated', stays', looked'⟩ :=
    evaluate_image hosted holds' foreign (views ▸ sane : app.Sane (app.view state'))
  have stills := congrArg Binding.Image.stills same
  change first.slots.map PipeSlot.image = second.slots.map PipeSlot.image at stills
  rw [views, ← stills, looked] at looked'
  have results := congrArg Prod.fst looked'
  have images := congrArg (fun ran => ran.2.2) looked'
  have sources := stays.source.trans stays'.source.symm
  simp only [Binding.image, Binding.Image.mk.injEq] at same
  have judged := judge_image (by
    simp only [Binding.image, Binding.Image.mk.injEq]
    exact ⟨same.1, same.2.1, same.2.2.1, images⟩) sources results
  exact ⟨_, _, _, _, Binding.check_eq evaluated, Binding.check_eq evaluated', stays.judge .detect result,
    stays'.judge .detect result', judged⟩

theorem Holds.tidy (holds : watch.Holds binding) :
    Still.Tidy (binding.slots.map PipeSlot.image) := by
  refine List.forall_mem_map.mpr fun slot member => ?_
  obtain ⟨index, found⟩ := List.mem_iff_getElem?.mp member
  exact (holds.keeps index slot found).image

/-- After a check that did not fail, the expression is settled. -/
theorem check_settles {hosted : HostedPipes σ Empty} {purpose : Purpose} {finding : Finding}
    {after : Binding Empty}
    (holds : watch.Holds binding) (foreign : scope.Foreign) (sane : app.Sane (app.view state))
    (ran : binding.check app.host (.default hosted) scope purpose state =
      ((finding, after), state))
    (fine : ∀ error, finding ≠ .failed error) :
    watch.Settled (app.mirror (app.view state)) scope after.image := by
  obtain ⟨result, slots, evaluated, stays, looked⟩ := evaluate_image hosted holds foreign sane
  have judged := congrArg Prod.fst ((Binding.check_eq evaluated).symm.trans ran)
  obtain ⟨-, -, -, again⟩ := look_settles foreign sane _ _ _ holds.tidy looked
  obtain ⟨repeated, agree, ranAgain⟩ := again _ fun _ _ => rfl
  cases result with
  | error cause =>
    cases judged
    exact absurd rfl (fine _)
  | ok outcome =>
    cases agree with
    | @ok _ repeated related =>
      -- A value that is found again is the value that was found.
      have seen (value : Value) (found : repeated = .value value) :
          outcome.timeless = .value value := by
        subst found
        rcases related with same | same
        · exact same.symm
        · cases same
      cases outcome with
      | noChange =>
        cases judged
        refine ⟨repeated, ranAgain, ?_⟩
        intro value found
        cases seen value found
      | value current =>
        simp only [Binding.judge] at judged
        split at judged
        · rename_i same
          cases judged
          refine ⟨repeated, ranAgain, ?_⟩
          intro value found
          obtain rfl : current.timeless = value := Outcome.value.inj (seen value found)
          simpa only [Binding.image, Cached.differsFrom_timeless, Bool.not_eq_true'] using same
        · cases purpose with
          | verify =>
            cases judged
            exact absurd rfl (fine _)
          | detect =>
            cases judged
            refine ⟨repeated, ranAgain, ?_⟩
            intro value found
            obtain rfl : current.timeless = value := Outcome.value.inj (seen value found)
            simp only [Binding.image, Cached.timeless, Cached.differsFrom, Value.identical,
              Value.identical_self, Bool.not_true]

/-- Every check finds a settled expression as it is. -/
theorem check_settled (hosted : HostedPipes σ Empty) (purpose : Purpose)
    (holds : watch.Holds binding) (foreign : scope.Foreign) (sane : app.Sane (app.view state))
    (settled : watch.Settled (app.mirror (app.view state)) scope binding.image) :
    ∃ after, binding.check app.host (.default hosted) scope purpose state =
        ((.same, after), state) ∧
      watch.Holds after ∧ after.image = binding.image := by
  obtain ⟨result, slots, evaluated, stays, looked⟩ := evaluate_image hosted holds foreign sane
  obtain ⟨outcome, seen, agrees⟩ := settled
  have same := looked.symm.trans seen
  have images : slots.map PipeSlot.image = binding.slots.map PipeSlot.image :=
    congrArg (fun ran => ran.2.2) same
  cases result with
  | error cause => cases congrArg Prod.fst same
  | ok found =>
    have outcomes : found.timeless = outcome := Except.ok.inj (congrArg Prod.fst same)
    refine ⟨_, (Binding.check_eq evaluated).trans (Prod.ext ?_ rfl), stays, ?_⟩
    · cases found with
      | noChange => rfl
      | value current =>
        have known := agrees current.timeless outcomes.symm
        simp only [Binding.image, Cached.differsFrom_timeless] at known
        simp only [Binding.judge, known, Bool.not_false, if_true]
    · simp only [Binding.image, images]

end Watch
end ChangeWatch
