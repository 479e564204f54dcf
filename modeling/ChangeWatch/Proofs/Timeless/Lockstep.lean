import ChangeWatch.Proofs.Standstill
import ChangeWatch.Proofs.Timeless.Watching

/-!
Two detectors in lockstep. From one image, a detection by either finds the same changes and leaves one
image, whatever the strategies and however many evaluations came before. A verification behind a
successful detection finds nothing and changes nothing but the time.
-/
namespace ChangeWatch

open List (Forall₂)

variable [Epoch]

namespace Watch

variable {app : Application σ ν} {hosted : HostedPipes σ Empty} {watches : List Watch}
  {scope : Scope} {seen : ν} {bindings : List (Binding Empty)}

/-- After a check that did not fail, all expressions are settled. -/
theorem settled_of_fares (holds : Forall₂ Watch.Holds watches bindings) (foreign : scope.Foreign)
    (sane : app.Sane seen) {purpose : Purpose} {result : Except CheckError Nat}
    {afters : List (Binding Empty)}
    (fares : Forall₂ (Detector.Fares app.host (.default hosted) scope purpose
      (fun state => app.view state = seen) result) bindings afters)
    {total : Nat} (passed : result = .ok total) :
    Forall₂ (fun watch after => watch.Settled (app.mirror seen) scope (Binding.image after))
      watches afters := by
  induction holds generalizing afters with
  | nil =>
    cases fares
    exact .nil
  | cons first _ ih =>
    cases fares with
    | cons fare others =>
      refine .cons ?_ (ih others)
      cases fare with
      | left failed => cases failed.symm.trans passed
      | checked holds ran fine =>
        subst holds
        have kept := first.check_state hosted foreign sane purpose
        rw [ran] at kept
        obtain rfl := kept
        exact check_settles first foreign sane ran (fine total passed)

/-- Every check finds settled expressions as they are. -/
theorem same_of_settled (hosted : HostedPipes σ Empty) (purpose : Purpose) {state : σ}
    (holds : Forall₂ Watch.Holds watches bindings) (foreign : scope.Foreign)
    (sane : app.Sane (app.view state))
    (settled : Forall₂ (fun watch binding =>
      watch.Settled (app.mirror (app.view state)) scope (Binding.image binding)) watches bindings) :
    ∃ afters, Forall₂ (fun binding after =>
        binding.check app.host (.default hosted) scope purpose state = ((.same, after), state))
        bindings afters ∧
      Forall₂ Watch.Holds watches afters ∧
      afters.map Binding.image = bindings.map Binding.image := by
  induction holds with
  | nil => exact ⟨[], .nil, .nil, rfl⟩
  | cons first _ ih =>
    obtain ⟨settledFirst, settledOthers⟩ := List.forall₂_cons.mp settled
    obtain ⟨after, ran, stays, image⟩ :=
      check_settled hosted purpose first foreign sane settledFirst
    obtain ⟨afters, finds, others, images⟩ := ih settledOthers
    exact ⟨after :: afters, .cons ran finds, .cons stays others, congrArg₂ List.cons image images⟩

end Watch

noncomputable def Notification.timeless (notification : Notification) : Notification :=
  { notification with changes := notification.changes.map ChangeRecord.timeless }

/-- A dispatcher that keeps what expressions see and does not see time itself: it does not tell apart
states that are alike, or changes with one image. -/
structure Dispatcher.Blind (dispatcher : Dispatcher σ) (app : Application σ ν)
    (Alike : σ → σ → Prop) : Prop extends dispatcher.Heeds ChangeRecord.timeless Alike where
  views : ∀ state other, Alike state other → app.view other = app.view state
  keeps : ∀ group changes state, app.view (dispatcher group changes state).2 = app.view state

/-- A detector that watches expressions. -/
structure Detector.Watches (detector : Detector σ Empty) (hosted : HostedPipes σ Empty)
    (dispatcher : Dispatcher σ) (watches : List Watch) (scope : Scope) : Prop where
  registry : detector.registry = .default hosted
  dispatcher : detector.dispatcher = dispatcher
  scope : detector.scope = some scope
  bindings : Forall₂ Watch.Holds watches detector.bindings

/-- What a check leaves: its result, the expressions, and the application. -/
abbrev Checks (σ : Type) := (Except CheckError Nat × List (Binding Empty)) × σ

/-- Two checks with one result and one image. -/
structure Checks.Match (Alike : σ → σ → Prop) (watches : List Watch) (first second : Checks σ) :
    Prop where
  results : first.1.1 = second.1.1
  holds : Forall₂ Watch.Holds watches first.1.2
  holds' : Forall₂ Watch.Holds watches second.1.2
  images : first.1.2.map Binding.image = second.1.2.map Binding.image
  states : Alike first.2 second.2

namespace Checks.Match

variable {Alike : σ → σ → Prop} {watch : Watch} {watches : List Watch}
  {after after' : Binding Empty}

theorem cons {first second : Checks σ} (rest : Checks.Match Alike watches first second)
    (holds : watch.Holds after) (holds' : watch.Holds after')
    (images : after.image = after'.image) :
    Checks.Match Alike (watch :: watches) ((first.1.1, after :: first.1.2), first.2)
      ((second.1.1, after' :: second.1.2), second.2) where
  results := rest.results
  holds := .cons holds rest.holds
  holds' := .cons holds' rest.holds'
  images := congrArg₂ List.cons images rest.images
  states := rest.states

end Checks.Match

section Detect

variable {app : Application σ ν} {hosted : HostedPipes σ Empty} {dispatcher : Dispatcher σ}
  {Alike : σ → σ → Prop} {detector other : Detector σ Empty} {watches : List Watch} {scope : Scope}

theorem checkFrom_match (blind : dispatcher.Blind app Alike)
    (watching : detector.Watches hosted dispatcher watches scope)
    (watching' : other.Watches hosted dispatcher watches scope) (foreign : scope.Foreign)
    {bindings bindings' : List (Binding Empty)} {rest : List Watch}
    (holds : Forall₂ Watch.Holds rest bindings) (holds' : Forall₂ Watch.Holds rest bindings')
    (images : bindings.map Binding.image = bindings'.map Binding.image) {buffer buffer' : Buffer}
    (buffers : buffer.Match ChangeRecord.timeless buffer') (count : Nat) {state state' : σ}
    (alike : Alike state state') (sane : app.Sane (app.view state)) :
    Checks.Match Alike rest
      (detector.checkFrom app.host scope .detect buffer count bindings state)
      (other.checkFrom app.host scope .detect buffer' count bindings' state') := by
  induction holds generalizing bindings' buffer buffer' count state state' with
  | nil =>
    cases holds'
    obtain ⟨results, states⟩ := Buffer.flush_match blind.toHeeds buffers alike
    rw [Detector.checkFrom_nil, Detector.checkFrom_nil, watching.dispatcher, watching'.dispatcher]
    exact ⟨congrArg (Except.map fun _ => count) results, .nil, .nil, rfl, states⟩
  | @cons watch binding rest bindings first others ih =>
    cases holds' with
    | @cons _ binding' _ bindings' first' others' =>
      obtain ⟨image, imagesRest⟩ := List.cons.inj images
      have group : binding'.group = binding.group := (congrArg Binding.Image.group image).symm
      obtain ⟨agree, between⟩ := Buffer.flushFor_match blind.toHeeds buffers alike binding.group
      have sane : app.Sane (app.view (buffer.flushFor dispatcher binding.group state).2) :=
        Buffer.flushFor_stays (K := fun later => app.Sane (app.view later))
          (fun group changes later sane => (blind.keeps group changes later).symm ▸ sane) sane
          binding.group
      cases flushed : buffer.flushFor dispatcher binding.group state with
      | mk flush later =>
        cases flushed' : buffer'.flushFor dispatcher binding.group state' with
        | mk flush' later' =>
          rw [flushed, flushed'] at agree between
          rw [flushed] at sane
          cases agree with
          | error error =>
            rw [Detector.checkFrom_refused count bindings (watching.dispatcher ▸ flushed),
              Detector.checkFrom_refused count bindings'
                (watching'.dispatcher ▸ group ▸ flushed')]
            exact ⟨rfl, .cons first others, .cons first' others', images, between⟩
          | @ok kept kept' keptSame =>
            obtain ⟨finding, after, finding', after', ran, ran', stays, stays', findings,
              imagesAfter⟩ := Watch.check_image hosted first first' foreign sane
                (blind.views _ _ between) image
            rw [Detector.checkFrom_cons count bindings (watching.dispatcher ▸ flushed)
                (watching.registry ▸ ran),
              Detector.checkFrom_cons count bindings' (watching'.dispatcher ▸ group ▸ flushed')
                (watching'.registry ▸ ran')]
            cases finding with
            | failed error =>
              cases finding' <;> cases findings
              exact ⟨rfl, .cons stays others, .cons stays' others',
                congrArg₂ List.cons imagesAfter imagesRest, between⟩
            | same =>
              cases finding' <;> cases findings
              exact (ih others' imagesRest keptSame count between sane).cons stays stays' imagesAfter
            | changed change =>
              cases finding' with
              | changed change' =>
                have changes : change.timeless = change'.timeless := Finding.changed.inj findings
                have group : after.group = after'.group := congrArg Binding.Image.group imagesAfter
                have pushed : (kept.push after.group change).Match ChangeRecord.timeless
                    (kept'.push after'.group change') := group ▸ keptSame.push after.group changes
                exact (ih others' imagesRest pushed (count + 1) between sane).cons stays stays'
                  imagesAfter
              | _ => cases findings

end Detect

/-- Two states of an application and a detector, with one image. -/
structure Twins (hosted : HostedPipes σ Empty) (dispatcher : Dispatcher σ) (Alike : σ → σ → Prop)
    (watches : List Watch) (scope : Scope) (first second : σ × Detector σ Empty) : Prop where
  watching : first.2.Watches hosted dispatcher watches scope
  watching' : second.2.Watches hosted dispatcher watches scope
  images : first.2.bindings.map Binding.image = second.2.bindings.map Binding.image
  states : Alike first.1 second.1

/-- Everything that a detector watches is settled. -/
def Detector.Settled (detector : Detector σ Empty) (watches : List Watch) (mirror : Host Unit)
    (scope : Scope) : Prop :=
  Forall₂ (fun watch image => watch.Settled mirror scope image) watches
    (detector.bindings.map Binding.image)

section Check

variable {app : Application σ ν} {hosted : HostedPipes σ Empty} {dispatcher : Dispatcher σ}
  {Alike : σ → σ → Prop} {detector other : Detector σ Empty} {watches : List Watch} {scope : Scope}
  {state state' : σ}

theorem Detector.Watches.replace (watching : detector.Watches hosted dispatcher watches scope)
    {bindings : List (Binding Empty)} (holds : Forall₂ Watch.Holds watches bindings) :
    Detector.Watches { detector with bindings } hosted dispatcher watches scope :=
  { watching with bindings := holds }

/-- A check keeps what expressions see, and checks every expression by itself. -/
theorem Detector.Watches.fares (watching : detector.Watches hosted dispatcher watches scope)
    (foreign : scope.Foreign) (sane : app.Sane (app.view state))
    (keeps : ∀ group changes later, app.view (dispatcher group changes later).2 = app.view later)
    (purpose : Purpose) :
    let ran := detector.checkFrom app.host scope purpose {} 0 detector.bindings state
    app.view ran.2 = app.view state ∧
      Forall₂ (Fares app.host (.default hosted) scope purpose
        (fun later => app.view later = app.view state) ran.1.1) detector.bindings ran.1.2 := by
  obtain ⟨registry, rfl, -, bindings⟩ := watching
  rw [← registry]
  refine checkFrom_fares (K := fun later => app.view later = app.view state) ?_ ?_ rfl {} 0
  · intro group changes later same
    rw [keeps, same]
  · intro binding member later same
    obtain ⟨watch, holds⟩ := Watch.holds_of_mem bindings member
    rw [registry, holds.check_state hosted foreign (same ▸ sane), same]

theorem detect_twins (blind : dispatcher.Blind app Alike)
    (twins : Twins hosted dispatcher Alike watches scope (state, detector) (state', other))
    (foreign : scope.Foreign) (sane : app.Sane (app.view state)) :
    ∃ result after after' bindings bindings',
      detector.check app.host .detect state = ((result, { detector with bindings }), after) ∧
      other.check app.host .detect state' =
        ((result, { other with bindings := bindings' }), after') ∧
      Twins hosted dispatcher Alike watches scope (after, { detector with bindings })
        (after', { other with bindings := bindings' }) ∧
      app.view after = app.view state ∧
      ∀ count, result = .ok count →
        Detector.Settled { detector with bindings } watches (app.mirror (app.view after)) scope := by
  obtain ⟨watching, watching', images, alike⟩ := twins
  have ran := checkFrom_match blind watching watching' foreign watching.bindings watching'.bindings
    images (.refl _ {}) 0 alike sane
  have fares := watching.fares foreign sane blind.keeps .detect
  rw [Detector.check_of_scope _ watching.scope, Detector.check_of_scope _ watching'.scope]
  generalize detector.checkFrom app.host scope .detect {} 0 detector.bindings state = first
    at ran fares ⊢
  generalize other.checkFrom app.host scope .detect {} 0 other.bindings state' = second at ran ⊢
  obtain ⟨⟨result, bindings⟩, after⟩ := first
  obtain ⟨⟨result', bindings'⟩, after'⟩ := second
  obtain rfl : result = result' := ran.results
  refine ⟨result, after, after', _, _, rfl, rfl, ⟨watching.replace ran.holds,
    watching'.replace ran.holds', ran.images, ran.states⟩, fares.1, fun count passed => ?_⟩
  rw [fares.1]
  exact List.forall₂_map_right_iff.mpr (Watch.settled_of_fares watching.bindings foreign sane
    fares.2 passed)

theorem verify_twin (watching : detector.Watches hosted dispatcher watches scope)
    (foreign : scope.Foreign) (sane : app.Sane (app.view state))
    (settled : detector.Settled watches (app.mirror (app.view state)) scope) :
    ∃ bindings, detector.check app.host .verify state =
        ((.ok 0, { detector with bindings }), state) ∧
      Detector.Watches { detector with bindings } hosted dispatcher watches scope ∧
      bindings.map Binding.image = detector.bindings.map Binding.image := by
  obtain ⟨afters, finds, holds, images⟩ := Watch.same_of_settled hosted .verify
    watching.bindings foreign sane (List.forall₂_map_right_iff.mp settled)
  refine ⟨afters, ?_, watching.replace holds, images⟩
  rw [Detector.check_of_scope _ watching.scope,
    Detector.checkFrom_same (watching.registry ▸ finds)]

end Check
end ChangeWatch
