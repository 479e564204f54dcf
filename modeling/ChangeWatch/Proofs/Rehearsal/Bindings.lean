import ChangeWatch.Proofs.Rehearsal.Shapes
import ChangeWatch.Proofs.Rest.Detectors

/-!
Expressions that have failed a verification. Their pipes have taken in what they were given, so an
evaluation behind it ends as the one that failed, unless the value itself is what a pipe publishes: a
pipe has nothing new to publish the second time.
-/
namespace ChangeWatch

open Stateful (Agree)

/-- An expression whose value is what a pipe publishes. -/
def Expr.isPipe : Expr → Bool
  | pipe _ _ _ _ => true
  | _ => false

/-- An error that is no change in what a pipe publishes, as far as one expression is concerned. -/
def CheckError.Spares (cause : CheckError) (binding : Binding κ) : Prop :=
  ∀ previous current,
    cause = .changedAfterChecked binding.evaluator.source.describe binding.id previous current →
      binding.evaluator.source.expr.isPipe = false

/-- A verification that fails leaves the expression as its evaluation left it. -/
theorem Binding.judge_verify_failed {binding after : Binding κ} {result : Except EvalError Outcome}
    {cause : CheckError} (judged : binding.judge .verify result = (.failed cause, after)) :
    after = binding ∧
      (cause.Spares binding → (∃ error, result = .error error) ∨
        binding.evaluator.source.expr.isPipe = false) := by
  cases Judged.of_judge judged with
  | failed => exact ⟨rfl, fun _ => .inl ⟨_, rfl⟩⟩
  | offends => exact ⟨rfl, fun spares => .inr (spares _ _ rfl)⟩

/-- Where a verification fails, a detection finds something. -/
theorem Binding.judge_failed {binding after : Binding κ} {result : Except EvalError Outcome}
    {cause : CheckError} (judged : binding.judge .verify result = (.failed cause, after)) :
    (binding.judge .detect result).1 ≠ .same := by
  unfold judge at judged ⊢
  split at judged
  · nofun
  · cases judged
  · split at judged
    · cases judged
    · rename_i differs
      simp only [differs]
      nofun

/-- Where a verification finds nothing, neither does a detection. -/
theorem Binding.judge_same {binding after : Binding κ} {result : Except EvalError Outcome}
    (judged : binding.judge .verify result = (.same, after)) :
    binding.judge .detect result = (.same, after) := by
  unfold judge at judged ⊢
  split at judged
  · cases judged
  · exact judged
  · split at judged
    · rename_i same
      simp only [same, if_true, judged]
    · cases judged

theorem Binding.check_same {host : Host σ} {registry : Registry σ κ} {scope : Scope}
    {binding after : Binding κ} {state later : σ}
    (ran : binding.check host registry scope .verify state = ((.same, after), later)) :
    binding.check host registry scope .detect state = ((.same, after), later) := by
  obtain ⟨result, between, evaluated, judged⟩ := of_check ran
  rw [check_eq evaluated, judge_same judged]

section Watches

variable [Epoch]

/-- An evaluation repeated at once finds its value again, unless the value is what a pipe publishes. -/
theorem Situation.program_repeats {s : Situation σ} (origin base : Place) {e : Expr}
    (placed : e.Placed s.owner []) (other : e.isPipe = false) :
    Settles (fun _ => True) (fun _ => True) Eq
      ((Program.ofExpr origin e).evaluate s.model base) := by
  have found := s.run_settles origin base [] e placed
  cases e with
  | pipe => cases other
  | _ =>
    simp only [Program.ofExpr, Program.evaluate]
    refine (found.map (fun _ _ => trivial) ?_).within fun _ _ => trivial
    exact fun value again same => congrArg Outcome.value same

namespace Watch

variable {watch : Watch} {scope : Scope} {app : Application σ ν} {state : σ}
  {binding after : Binding Empty}

theorem look_repeats (foreign : scope.Foreign) (sane : app.Sane (app.view state))
    (other : watch.source.expr.isPipe = false) :
    Settles (fun _ => True) (fun _ => True) Eq
      (watch.look (app.mirror (app.view state)) scope) := by
  let hosted : HostedPipes σ Empty := ⟨Empty.elim, Empty.elim, Empty.elim⟩
  have settles (origin base : Place) :=
    (watch.situation app hosted foreign sane).program_repeats origin base watch.placed other
  rw [look]
  cases watch.strategy with
  | interpreted =>
    simp only [Evaluator.make, Evaluator.evaluate, ← Program.evaluate_ofExpr]
    exact settles _ _
  | compiled => exact settles _ _

/-- A look repeated at once ends as before. -/
theorem look_again (foreign : scope.Foreign) (sane : app.Sane (app.view state))
    {stills later : List Still} {result : Except EvalError Outcome} (tidy : Still.Tidy stills)
    (looked : watch.look (app.mirror (app.view state)) scope ((), stills) = (result, ((), later)))
    (spared : (∃ error, result = .error error) ∨ watch.source.expr.isPipe = false) :
    watch.look (app.mirror (app.view state)) scope ((), later) = (result, ((), later)) := by
  rcases spared with ⟨error, rfl⟩ | other
  · obtain ⟨-, -, -, again⟩ := look_settles foreign sane _ _ _ tidy looked
    obtain ⟨_, agree, repeated⟩ := again later fun _ _ => rfl
    cases agree
    exact repeated
  · obtain ⟨-, -, -, again⟩ := look_repeats foreign sane other _ _ _ tidy looked
    obtain ⟨_, agree, repeated⟩ := again later fun _ _ => rfl
    cases agree with
    | ok same => exact same ▸ repeated
    | error => exact repeated

/-- Behind a verification that fails, a detection finds what it would have found before. -/
theorem failed_again (hosted : HostedPipes σ Empty) (holds : watch.Holds binding)
    (foreign : scope.Foreign) (sane : app.Sane (app.view state)) {cause : CheckError}
    (ran : binding.check app.host (.default hosted) scope .verify state =
      ((.failed cause, after), state))
    (spares : cause.Spares binding) :
    after.group = binding.group ∧ ∃ finding last finding' last',
      binding.check app.host (.default hosted) scope .detect state = ((finding, last), state) ∧
      after.check app.host (.default hosted) scope .detect state = ((finding', last'), state) ∧
      watch.Holds last ∧ watch.Holds last' ∧ finding.timeless = finding'.timeless ∧
      last.image = last'.image ∧ finding ≠ .same := by
  obtain ⟨result, slots, evaluated, stays, looked⟩ := evaluate_image hosted holds foreign sane
  have judged := congrArg Prod.fst ((Binding.check_eq evaluated).symm.trans ran)
  have finds := Binding.judge_failed judged
  obtain ⟨rfl, spared⟩ := Binding.judge_verify_failed judged
  obtain ⟨result', slots', evaluated', stays', looked'⟩ := evaluate_image hosted stays foreign sane
  have ended : (∃ error, result.map Outcome.timeless = .error error) ∨
      watch.source.expr.isPipe = false := by
    rw [← holds.source]
    refine (spared spares).imp_left ?_
    rintro ⟨error, rfl⟩
    exact ⟨error, rfl⟩
  have same := looked'.symm.trans (look_again foreign sane holds.tidy looked ended)
  have results : result.map Outcome.timeless = result'.map Outcome.timeless :=
    (congrArg Prod.fst same).symm
  have stills : slots.map PipeSlot.image = slots'.map PipeSlot.image :=
    (congrArg (fun ran => ran.2.2) same).symm
  obtain ⟨findings, images⟩ := judge_image (by simp only [Binding.image, stills])
    (stays.source.trans stays'.source.symm) results
  exact ⟨rfl, _, _, _, _, Binding.check_eq evaluated, Binding.check_eq evaluated', stays.judge .detect result,
    stays'.judge .detect result', findings, images, finds⟩

end Watch
end Watches

namespace Binding

variable {outlook : Outlook σ ν} {seen later : ν} {scope? : Option Scope} {scope : Scope}
  {state state' : σ} {binding other after : Binding Empty}

theorem Twins.group (twins : binding.Twins outlook seen scope? other) : other.group = binding.group :=
  have ⟨_, _, _, _, images⟩ := twins
  (congrArg Image.group images).symm

theorem Twins.mono (twins : binding.Twins outlook seen scope? other)
    (keeps : outlook.Keeps seen later) : binding.Twins outlook later scope? other :=
  have ⟨epoch, watch, fits, fits', images⟩ := twins
  ⟨epoch, watch, fits.mono keeps, fits'.mono keeps, images⟩

/-- Detections find the same in twins, and leave them twins. -/
theorem Twins.check (hosted : HostedPipes σ Empty)
    (twins : binding.Twins outlook (outlook.view state) (some scope) other)
    (views : outlook.view state' = outlook.view state) :
    ∃ finding after finding' after',
      binding.check outlook.host (.default hosted) scope .detect state =
        ((finding, after), state) ∧
      other.check outlook.host (.default hosted) scope .detect state' =
        ((finding', after'), state') ∧
      finding.shape = finding'.shape ∧
      after.Twins outlook (outlook.view state) (some scope) after' := by
  obtain ⟨epoch, watch, fits, fits', images⟩ := twins
  let app := outlook.application
  have sane : app.Sane (app.view state) := fits.clear
  obtain ⟨finding, after, finding', after', ran, ran', holds, holds', findings, images⟩ :=
    @Watch.check_image _ _ _ _ _ app state hosted _ _ state' fits.holds fits'.holds
      (fits.foreign scope rfl) sane views images
  refine ⟨finding, after, finding', after', ran, ran', ?_, epoch, watch, { fits with holds := holds },
    { fits with holds := holds' }, images⟩
  rw [← finding.shape_timeless, findings, finding'.shape_timeless]

/-- An expression and what a failed verification leaves of it, which is not at rest: detections find the
same and leave twins. -/
theorem Fit.failed_again (hosted : HostedPipes σ Empty)
    (fit : binding.Fit outlook (outlook.view state) (some scope)) {cause : CheckError}
    (ran : binding.check outlook.host (.default hosted) scope .verify state =
      ((.failed cause, other), state))
    (spares : cause.Spares binding) :
    other.group = binding.group ∧ ¬ other.Rests outlook (outlook.view state) scope ∧
      ∃ finding after finding' after',
      binding.check outlook.host (.default hosted) scope .detect state =
        ((finding, after), state) ∧
      other.check outlook.host (.default hosted) scope .detect state = ((finding', after'), state) ∧
      finding.shape = finding'.shape ∧
      after.Twins outlook (outlook.view state) (some scope) after' := by
  obtain ⟨epoch, watch, fits⟩ := fit
  let app := outlook.application
  have sane : app.Sane (app.view state) := fits.clear
  obtain ⟨group, finding, after, finding', after', ran, ran', holds, holds', findings, images, finds⟩ :=
    @Watch.failed_again _ _ _ _ _ app _ _ _ hosted fits.holds (fits.foreign scope rfl) sane _ ran spares
  refine ⟨group, fun rests => ?_, finding, after, finding', after', ran, ran', ?_, epoch, watch,
    { fits with holds := holds }, { fits with holds := holds' }, images⟩
  · obtain ⟨last, same, -⟩ := rests.check hosted .detect
    cases same.symm.trans ran'
    cases finding with
    | same => exact finds rfl
    | changed | failed => cases findings
  · rw [← finding.shape_timeless, findings, finding'.shape_timeless]

end Binding
end ChangeWatch
