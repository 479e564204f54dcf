import ChangeWatch.Proofs.Standstill
import ChangeWatch.Proofs.Timeless.Application
import ChangeWatch.Proofs.Timeless.Moments

/-!
Detectors at rest. A check that succeeds leaves every expression settled, each at an epoch of its own,
and a check of settled expressions succeeds, hands nothing over and leaves them settled.
-/
namespace ChangeWatch

open List (Forall₂)

/-- Whenever one view is clear, another one is. -/
def Outlook.Keeps (outlook : Outlook σ ν) (seen later : ν) : Prop :=
  ∀ _ : Epoch, Epoch.Object = outlook.known → Epoch.Function = outlook.calls →
    outlook.Clear seen → outlook.Clear later

theorem Outlook.Keeps.refl (outlook : Outlook σ ν) (seen : ν) : outlook.Keeps seen seen :=
  fun _ _ _ clear => clear

theorem Outlook.Keeps.trans {outlook : Outlook σ ν} {seen between later : ν}
    (first : outlook.Keeps seen between) (second : outlook.Keeps between later) :
    outlook.Keeps seen later :=
  fun epoch objects functions clear =>
    second epoch objects functions (first epoch objects functions clear)

theorem PipeSlot.clear_eq (slot : PipeSlot Empty) (registry : Registry σ Empty) (state : σ) :
    slot.clear registry state = ({ slot with pipe := none, last := .null }, state) := by
  obtain ⟨pipe, last, made⟩ := slot
  cases pipe with
  | none => rfl
  | some pipe =>
    cases pipe with
    | builtIn pipe place transforms => rfl
    | hosted handle => cases handle

theorem PipeSlot.clearAll_eq (slots : List (PipeSlot Empty)) (registry : Registry σ Empty)
    (state : σ) : clearAll registry slots state =
      (slots.map fun slot => { slot with pipe := none, last := .null }, state) := by
  induction slots with
  | nil => rfl
  | cons slot slots ih =>
    simp only [clearAll, Bind.bind, StateT.bind, clear_eq, ih]
    rfl

/-- A dispatcher that leaves a view of the application alone. -/
def Dispatcher.Leaves (view : σ → ν) (dispatcher : Dispatcher σ) : Prop :=
  ∀ group changes state, view (dispatcher group changes state).2 = view state

/-- A dispatcher that may change the application, but puts no reported containers into it. -/
def Dispatcher.Upholds (outlook : Outlook σ ν) (dispatcher : Dispatcher σ) : Prop :=
  ∀ group changes state,
    outlook.Keeps (outlook.view state) (outlook.view (dispatcher group changes state).2)

theorem Dispatcher.Leaves.keeps {outlook : Outlook σ ν} {dispatcher : Dispatcher σ}
    (leaves : dispatcher.Leaves outlook.view) : dispatcher.Upholds outlook := by
  intro group changes state
  rw [leaves]
  exact Outlook.Keeps.refl outlook _

/-- Checks for some purpose leave the view of the application alone: a verification calls no dispatcher,
and with a detection all dispatchers leave it alone. -/
def Purpose.Leaves (outlook : Outlook σ ν) (Trusted : Dispatcher σ → Prop) (purpose : Purpose) : Prop :=
  purpose = .detect → ∀ dispatcher, Trusted dispatcher → dispatcher.Leaves outlook.view

theorem Purpose.leaves_verify (outlook : Outlook σ ν) (Trusted : Dispatcher σ → Prop) :
    Leaves outlook Trusted .verify :=
  fun impossible => by cases impossible

/-- Cleared slots hold nothing. -/
theorem Watch.Keeps.clearAll [Epoch] {watch : Watch} {slots : List (PipeSlot Empty)}
    (keeps : watch.Keeps slots) (registry : Registry σ Empty) (state : σ) :
    watch.Keeps (PipeSlot.clearAll registry slots state).1 := by
  intro index slot found
  rw [PipeSlot.clearAll_eq, List.getElem?_map] at found
  obtain ⟨old, held, rfl⟩ := Option.map_eq_some_iff.mp found
  exact ⟨(fun _ impossible => by cases impossible), trivial, (keeps index old held).fresh⟩

namespace Binding

/-- An expression that has met what an outlook admits since an epoch. -/
structure Since [Epoch] (outlook : Outlook σ ν) (watch : Watch) (binding : Binding Empty) :
    Prop where
  objects : Epoch.Object = outlook.known
  functions : Epoch.Function = outlook.calls
  holds : watch.Holds binding

/-- Everything that an expression meets was given at an epoch: what there is to see, and the values of
its scope. -/
structure Fits [Epoch] (outlook : Outlook σ ν) (watch : Watch) (seen : ν) (scope : Option Scope)
    (binding : Binding Empty) : Prop extends Since outlook watch binding where
  clear : outlook.Clear seen
  foreign : ∀ found, scope = some found → found.Foreign

/-- An expression that has met what an outlook admits. -/
def Ready (outlook : Outlook σ ν) (binding : Binding Empty) : Prop :=
  ∃ (_ : Epoch) (watch : Watch), Since outlook watch binding

/-- An expression that meets given values only. -/
def Fit (outlook : Outlook σ ν) (seen : ν) (scope : Option Scope) (binding : Binding Empty) : Prop :=
  ∃ (_ : Epoch) (watch : Watch), Fits outlook watch seen scope binding

/-- What an expression meets holds no container that the expression is yet to make. -/
def Clear (outlook : Outlook σ ν) (seen : ν) (scope : Option Scope) (binding : Binding Empty) :
    Prop :=
  ∀ detector index, binding.place = .ofBinding detector index →
    let present := binding.epoch detector index outlook.known outlook.calls
    @Outlook.Clear present _ _ outlook seen ∧
      ∀ found, scope = some found → @Scope.Foreign present found

/-- Two versions of an expression that meet given values only and have one image. -/
def Twins (outlook : Outlook σ ν) (seen : ν) (scope : Option Scope)
    (binding other : Binding Empty) : Prop :=
  ∃ (_ : Epoch) (watch : Watch), Fits outlook watch seen scope binding ∧
    Fits outlook watch seen scope other ∧ binding.image = other.image

/-- An expression that remembers what there is to see, and what further checks leave of it. -/
def Rested (outlook : Outlook σ ν) (seen : ν) (scope : Scope) (binding later : Binding Empty) : Prop :=
  ∃ (_ : Epoch) (watch : Watch), Fits outlook watch seen (some scope) binding ∧
    Fits outlook watch seen (some scope) later ∧ binding.image = later.image ∧
    watch.Settled (outlook.mirror seen) scope binding.image

/-- An expression that remembers what there is to see. -/
def Rests (outlook : Outlook σ ν) (seen : ν) (scope : Scope) (binding : Binding Empty) : Prop :=
  binding.Rested outlook seen scope binding

variable {outlook : Outlook σ ν} {seen later : ν} {scope? : Option Scope} {scope : Scope} {state : σ}
  {binding after : Binding Empty}

theorem Fit.ready (fit : binding.Fit outlook seen scope?) : binding.Ready outlook :=
  have ⟨epoch, watch, fits⟩ := fit
  ⟨epoch, watch, fits.toSince⟩

/-- What was met so far was given before the present. -/
theorem Ready.fit (ready : binding.Ready outlook) (now : binding.Clear outlook seen scope?) :
    binding.Fit outlook seen scope? := by
  obtain ⟨before, watch, objects, functions, holds⟩ := ready
  obtain ⟨clear, foreign⟩ := now watch.detector watch.index holds.place
  obtain ⟨strategy, now⟩ := @Watch.Holds.now _ _ before holds outlook.known outlook.calls
    (fun _ held => objects ▸ held) fun _ called => functions ▸ called
  let present : Epoch :=
    binding.epoch watch.detector watch.index outlook.known outlook.calls
  have since := @Since.mk _ _ present outlook { watch with strategy } binding rfl rfl now
  exact ⟨present, { watch with strategy }, @Fits.mk _ _ present _ _ _ _ _ since clear foreign⟩

theorem Ready.clear (ready : binding.Ready outlook) (registry : Registry σ Empty) (state : σ) :
    (binding.clear registry state).1.Ready outlook := by
  obtain ⟨epoch, watch, objects, functions, holds⟩ := ready
  refine ⟨epoch, watch, objects, functions, { holds with keeps := ?_ }⟩
  exact holds.keeps.clearAll registry state

theorem Fits.mono [Epoch] {watch : Watch} (fits : Fits outlook watch seen scope? binding)
    (keeps : outlook.Keeps seen later) : Fits outlook watch later scope? binding :=
  { fits with clear := keeps _ fits.objects fits.functions fits.clear }

theorem Fit.mono (fit : binding.Fit outlook seen scope?) (keeps : outlook.Keeps seen later) :
    binding.Fit outlook later scope? :=
  have ⟨epoch, watch, fits⟩ := fit
  ⟨epoch, watch, fits.mono keeps⟩

theorem Fit.twins (fit : binding.Fit outlook seen scope?) :
    binding.Twins outlook seen scope? binding :=
  have ⟨epoch, watch, fits⟩ := fit
  ⟨epoch, watch, fits, fits, rfl⟩

theorem Rested.twins (rested : binding.Rested outlook seen scope after) :
    binding.Twins outlook seen (some scope) after :=
  have ⟨epoch, watch, fits, fits', images, _⟩ := rested
  ⟨epoch, watch, fits, fits', images⟩

theorem Rested.rests (rested : binding.Rested outlook seen scope after) :
    after.Rests outlook seen scope :=
  have ⟨epoch, watch, _, fits, images, settled⟩ := rested
  ⟨epoch, watch, fits, fits, rfl, images ▸ settled⟩

/-- A check keeps an expression fit, and settles it if it does not fail. -/
theorem Fits.check [Epoch] {watch : Watch} (hosted : HostedPipes σ Empty)
    (fits : Fits outlook watch (outlook.view state) (some scope) binding) (purpose : Purpose) :
    ∃ finding after,
      binding.check outlook.host (.default hosted) scope purpose state =
        ((finding, after), state) ∧
      Fits outlook watch (outlook.view state) (some scope) after ∧
      ((∀ error, finding ≠ .failed error) →
        watch.Settled (outlook.mirror (outlook.view state)) scope after.image) := by
  let app := outlook.application
  have foreign := fits.foreign scope rfl
  have sane : app.Sane (app.view state) := fits.clear
  obtain ⟨result, slots, evaluated, stays, -⟩ :=
    Watch.evaluate_image hosted fits.holds foreign sane
  have ran : binding.check app.host (.default hosted) scope purpose state = _ :=
    Binding.check_eq evaluated
  exact ⟨_, _, ran, { fits with holds := stays.judge purpose result }, fun fine =>
    Watch.check_settles fits.holds foreign sane ran fine⟩

theorem Fit.check (hosted : HostedPipes σ Empty)
    (fit : binding.Fit outlook (outlook.view state) (some scope)) (purpose : Purpose) :
    ∃ finding after,
      binding.check outlook.host (.default hosted) scope purpose state =
        ((finding, after), state) ∧
      after.Fit outlook (outlook.view state) (some scope) ∧
      ((∀ error, finding ≠ .failed error) → after.Rests outlook (outlook.view state) scope) :=
  have ⟨epoch, watch, fits⟩ := fit
  have ⟨finding, after, ran, kept, settles⟩ := fits.check hosted purpose
  ⟨finding, after, ran, ⟨epoch, watch, kept⟩, fun fine =>
    ⟨epoch, watch, kept, kept, rfl, settles fine⟩⟩

/-- Every check finds an expression at rest as it is. -/
theorem Rested.check (hosted : HostedPipes σ Empty)
    (rested : binding.Rested outlook (outlook.view state) scope after) (purpose : Purpose) :
    ∃ last, after.check outlook.host (.default hosted) scope purpose state =
        ((.same, last), state) ∧
      binding.Rested outlook (outlook.view state) scope last := by
  obtain ⟨epoch, watch, fits, fits', images, settled⟩ := rested
  let app := outlook.application
  have sane : app.Sane (app.view state) := fits.clear
  obtain ⟨last, ran, kept, image⟩ := @Watch.check_settled _ _ _ _ _ app _ _ hosted purpose
    fits'.holds (fits.foreign scope rfl) sane (images ▸ settled)
  exact ⟨last, ran, epoch, watch, fits, { fits with holds := kept }, images.trans image.symm,
    settled⟩

end Binding

namespace Detector

variable {hosted : HostedPipes σ Empty} {outlook : Outlook σ ν} {Trusted : Dispatcher σ → Prop}
  {seen : ν} {state : σ} {purpose : Purpose} {detector later : Detector σ Empty}

/-- A detector with built-in pipes and a trusted dispatcher, whose expressions have met what an outlook
admits. -/
structure Ready (hosted : HostedPipes σ Empty) (outlook : Outlook σ ν)
    (Trusted : Dispatcher σ → Prop) (detector : Detector σ Empty) : Prop where
  registry : detector.registry = .default hosted
  dispatcher : Trusted detector.dispatcher
  bindings : ∀ binding ∈ detector.bindings, binding.Ready outlook

/-- A detector with built-in pipes and a trusted dispatcher, whose expressions meet given values
only. -/
structure Fit (hosted : HostedPipes σ Empty) (outlook : Outlook σ ν)
    (Trusted : Dispatcher σ → Prop) (seen : ν) (detector : Detector σ Empty) : Prop where
  registry : detector.registry = .default hosted
  dispatcher : Trusted detector.dispatcher
  bindings : ∀ binding ∈ detector.bindings, binding.Fit outlook seen detector.scope

/-- What all expressions of a detector meet is clear. -/
def Clear (outlook : Outlook σ ν) (seen : ν) (detector : Detector σ Empty) : Prop :=
  ∀ binding ∈ detector.bindings, binding.Clear outlook seen detector.scope

theorem Fit.ready (fit : detector.Fit hosted outlook Trusted seen) :
    detector.Ready hosted outlook Trusted :=
  ⟨fit.registry, fit.dispatcher, fun binding member => (fit.bindings binding member).ready⟩

theorem Ready.fit (ready : detector.Ready hosted outlook Trusted)
    (clear : detector.Clear outlook seen) : detector.Fit hosted outlook Trusted seen :=
  ⟨ready.registry, ready.dispatcher, fun binding member =>
    (ready.bindings binding member).fit (clear binding member)⟩

theorem Fit.mono (fit : detector.Fit hosted outlook Trusted seen) {after : ν}
    (keeps : outlook.Keeps seen after) : detector.Fit hosted outlook Trusted after :=
  ⟨fit.registry, fit.dispatcher, fun binding member => (fit.bindings binding member).mono keeps⟩

theorem clearAll_ready {bindings : List (Binding Empty)} (registry : Registry σ Empty) (state : σ)
    (ready : ∀ binding ∈ bindings, binding.Ready outlook) :
    ∀ binding ∈ (clearAll registry bindings state).1, binding.Ready outlook := by
  induction bindings generalizing state with
  | nil => exact fun _ member => by cases member
  | cons binding bindings ih =>
    obtain ⟨first, others⟩ := List.forall_mem_cons.mp ready
    exact List.forall_mem_cons.mpr ⟨first.clear registry state, ih _ others⟩

theorem Ready.dehydrate (ready : detector.Ready hosted outlook Trusted) (state : σ) :
    Ready hosted outlook Trusted (detector.dehydrate state).1 where
  registry := ready.registry
  dispatcher := ready.dispatcher
  bindings := clearAll_ready detector.registry state ready.bindings

theorem Fit.setMode (fit : detector.Fit hosted outlook Trusted seen) (mode : Mode) :
    Fit hosted outlook Trusted seen { detector with mode } :=
  ⟨fit.registry, fit.dispatcher, fit.bindings⟩

/-- A detector whose expressions remember what there is to see, unless it has no context, and what
further checks leave of it. -/
structure Rested (hosted : HostedPipes σ Empty) (outlook : Outlook σ ν) (seen : ν)
    (detector later : Detector σ Empty) : Prop where
  registry : detector.registry = .default hosted
  registry' : later.registry = .default hosted
  dispatcher : later.dispatcher = detector.dispatcher
  scope : later.scope = detector.scope
  bare : detector.scope = none → later.bindings = detector.bindings
  bindings : ∀ scope, detector.scope = some scope →
    Forall₂ (Binding.Rested outlook seen scope) detector.bindings later.bindings

/-- A detector whose expressions remember what there is to see. -/
def Rests (hosted : HostedPipes σ Empty) (outlook : Outlook σ ν) (seen : ν)
    (detector : Detector σ Empty) : Prop := detector.Rested hosted outlook seen detector

theorem Rested.rests (rested : detector.Rested hosted outlook seen later) :
    later.Rests hosted outlook seen where
  registry := rested.registry'
  registry' := rested.registry'
  dispatcher := rfl
  scope := rfl
  bare _ := rfl
  bindings scope found := by
    have each := rested.bindings scope (rested.scope ▸ found)
    refine List.forall₂_same.mpr fun after member => ?_
    obtain ⟨index, bound, rfl⟩ := List.getElem_of_mem member
    have within : index < detector.bindings.length := each.length_eq ▸ bound
    exact (each.get within bound).rests

theorem Rested.setMode (rested : detector.Rested hosted outlook seen later) (mode mode' : Mode) :
    Rested hosted outlook seen { detector with mode } { later with mode := mode' } :=
  ⟨rested.registry, rested.registry', rested.dispatcher, rested.scope, rested.bare,
    rested.bindings⟩

/-- A check keeps a detector fit, together with whatever its dispatcher keeps. Where that includes the
view, a check that succeeds brings the detector to rest. -/
theorem Fit.check {K : σ → Prop} (fit : detector.Fit hosted outlook Trusted (outlook.view state))
    (calls : purpose = .detect → ∀ group changes later, K later →
      K (detector.dispatcher group changes later).2)
    (keeps : ∀ later, K later → outlook.Keeps (outlook.view state) (outlook.view later))
    (holds : K state) :
    ∃ result bindings later,
      detector.check outlook.host purpose state = ((result, { detector with bindings }), later) ∧
      K later ∧ Fit hosted outlook Trusted (outlook.view later) { detector with bindings } ∧
      ((∀ between, K between → outlook.view between = outlook.view state) →
        ∀ total, result = .ok total →
          Rests hosted outlook (outlook.view state) { detector with bindings }) := by
  obtain ⟨registry, trusted, fits⟩ := fit
  obtain ⟨given, hydrated⟩ : ∃ given, detector.scope = given := ⟨_, rfl⟩
  cases given with
  | none =>
    refine ⟨.ok 0, detector.bindings, state, check_of_none _ hydrated purpose state, holds,
      ⟨registry, trusted, fits⟩, fun _ _ _ => ⟨registry, registry, rfl, rfl, fun _ => rfl, ?_⟩⟩
    intro scope found
    cases hydrated.symm.trans found
  | some scope =>
    rw [hydrated] at fits
    have checked : ∀ binding ∈ detector.bindings, ∀ later, K later →
        K (binding.check outlook.host detector.registry scope purpose later).2 := by
      intro binding member later kept
      have fit := (fits binding member).mono (keeps later kept)
      obtain ⟨_, _, ran, -⟩ := fit.check hosted purpose
      rw [registry, ran]
      exact kept
    obtain ⟨kept, fares⟩ := check_fares calls checked holds
    rw [registry] at fares
    have ended := check_of_scope outlook.host hydrated purpose state
    generalize detector.checkFrom outlook.host scope purpose {} 0 detector.bindings state = ran
      at kept fares ended
    obtain ⟨⟨result, bindings⟩, later⟩ := ran
    refine ⟨result, bindings, later, ended, kept, ⟨registry, trusted, fun after member => ?_⟩,
      fun still total passed => ⟨registry, registry, rfl, rfl, fun _ => rfl, fun found same => ?_⟩⟩
    · rw [show Detector.scope { detector with bindings } = some scope from hydrated]
      obtain ⟨binding, listed, fare⟩ := Fares.exists_of_mem fares member
      cases fare with
      | left failed => exact (fits _ listed).mono (keeps later kept)
      | @checked _ between _ _ holds ran =>
        obtain ⟨epoch, watch, fit⟩ := fits binding listed
        obtain ⟨_, _, checked, stays, -⟩ := (fit.mono (keeps between holds)).check hosted purpose
        cases ran.symm.trans checked
        exact ⟨epoch, watch, { fit.mono (keeps later kept) with holds := stays.holds }⟩
    · cases hydrated.symm.trans same
      refine List.forall₂_same.mpr fun after member => ?_
      obtain ⟨binding, listed, fare⟩ := Fares.exists_of_mem fares member
      cases fare with
      | left failed => cases failed.symm.trans passed
      | @checked _ between _ _ holds ran fine =>
        have here := still between holds
        obtain ⟨_, _, checked, -, rests⟩ := (here ▸ fits binding listed).check hosted purpose
        cases ran.symm.trans checked
        exact here ▸ rests (fine total passed)

/-- A check of a fit detector with a dispatcher that may change the application. -/
theorem Fit.check_keeps (fit : detector.Fit hosted outlook Trusted (outlook.view state))
    (keeps : ∀ dispatcher, Trusted dispatcher → dispatcher.Upholds outlook) (purpose : Purpose) :
    ∃ result bindings later,
      detector.check outlook.host purpose state = ((result, { detector with bindings }), later) ∧
      outlook.Keeps (outlook.view state) (outlook.view later) ∧
      Fit hosted outlook Trusted (outlook.view later) { detector with bindings } := by
  have calls (group : Label) (changes : List ChangeRecord) (later : σ)
      (kept : outlook.Keeps (outlook.view state) (outlook.view later)) :=
    kept.trans (keeps detector.dispatcher fit.dispatcher group changes later)
  obtain ⟨result, bindings, later, ran, kept, fits, -⟩ :=
    fit.check (fun _ => calls) (fun _ kept => kept) (.refl outlook _)
  exact ⟨result, bindings, later, ran, kept, fits⟩

/-- A check that leaves the application as it looks brings a fit detector to rest if it succeeds. -/
theorem Fit.check_rests (fit : detector.Fit hosted outlook Trusted (outlook.view state))
    (leaves : purpose.Leaves outlook Trusted) :
    ∃ result bindings later,
      detector.check outlook.host purpose state = ((result, { detector with bindings }), later) ∧
      outlook.view later = outlook.view state ∧
      Fit hosted outlook Trusted (outlook.view state) { detector with bindings } ∧
      ∀ total, result = .ok total →
        Rests hosted outlook (outlook.view state) { detector with bindings } := by
  obtain ⟨result, bindings, later, ran, same, fits, rests⟩ :=
    fit.check (K := fun later => outlook.view later = outlook.view state)
      (fun detects group changes later same =>
        (leaves detects detector.dispatcher fit.dispatcher group changes later).trans same)
      (fun later same => same ▸ .refl outlook _) rfl
  exact ⟨result, bindings, later, ran, same, same ▸ fits, rests fun _ same => same⟩

/-- Every check finds the expressions at rest as they are. -/
theorem exists_rested (hosted : HostedPipes σ Empty) {scope : Scope} (purpose : Purpose)
    {bindings afters : List (Binding Empty)}
    (rested : Forall₂ (Binding.Rested outlook (outlook.view state) scope) bindings afters) :
    ∃ lasts, Forall₂ (fun after last : Binding Empty =>
        after.check outlook.host (.default hosted) scope purpose state = ((.same, last), state))
        afters lasts ∧
      Forall₂ (Binding.Rested outlook (outlook.view state) scope) bindings lasts := by
  induction rested with
  | nil => exact ⟨[], .nil, .nil⟩
  | cons first _ ih =>
    obtain ⟨last, ran, kept⟩ := first.check hosted purpose
    obtain ⟨lasts, finds, others⟩ := ih
    exact ⟨last :: lasts, .cons ran finds, .cons kept others⟩

/-- A check of a detector at rest hands nothing over and leaves it at rest. -/
theorem Rested.narrate (rested : detector.Rested hosted outlook (outlook.view state) later)
    (purpose : Purpose) :
    ∃ bindings events,
      later.narrate outlook.host purpose state =
        (((.ok 0, { later with bindings }), events), state) ∧
      (∀ event ∈ events, event.calls = []) ∧
      Rested hosted outlook (outlook.view state) detector { later with bindings } := by
  obtain ⟨registry, registry', dispatcher, scopes, bare, rests⟩ := rested
  obtain ⟨given, hydrated⟩ : ∃ given, later.scope = given := ⟨_, rfl⟩
  cases given with
  | none =>
    exact ⟨later.bindings, [], narrate_of_none _ hydrated purpose state,
      (fun _ member => by cases member), registry, registry', dispatcher, scopes, bare, rests⟩
  | some scope =>
    obtain ⟨lasts, finds, kept⟩ := exists_rested hosted purpose (rests scope (scopes ▸ hydrated))
    rw [← registry'] at finds
    obtain ⟨events, told, silent⟩ := narrateFrom_same finds 0 0
    refine ⟨lasts, events, ?_, silent, registry, registry', dispatcher, scopes, ?_, ?_⟩
    · rw [narrate_of_scope _ hydrated, told]
    · intro nothing
      cases hydrated.symm.trans (scopes.trans nothing)
    · intro found same
      cases hydrated.symm.trans (scopes.trans same)
      exact kept

end Detector
end ChangeWatch
