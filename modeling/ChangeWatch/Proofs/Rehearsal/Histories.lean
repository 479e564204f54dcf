import ChangeWatch.Proofs.Rehearsal.Trees
import ChangeWatch.Proofs.Rest.Histories

/-!
Verifications are not noticed. Whatever has been done with a tree of built-in pipes, a detection hands
over the same notifications with and without a verification before it, unless the verification fails
because of what an expression publishes through a pipe.
-/
namespace ChangeWatch

open Forest (Every Linked)

namespace Tree

/-- Two detections with one result and calls of dispatchers of one shape, that leave the application
alike. -/
structure Matches (host : Host σ) (Alike : σ → σ → Prop) (id : NodeId) (world other : σ × Tree σ κ) :
    Prop where
  results : (detectChanges host id world).1 = (detectChanges host id other).1
  shapes : (calls host .detect id world).shapes = (calls host .detect id other).shapes
  states : Alike (detectChanges host id world).2.1 (detectChanges host id other).2.1

theorem told_pass (host : Host σ) (purpose : Purpose) (id : NodeId) (world : σ × Tree σ κ)
    {result : Except DetectorError Unit} {next : σ × Tree σ κ} {later : Tidings}
    (told : narrateVisit host purpose (world.2.cells.length + 1) id (world, []) =
      (result, (next, later))) :
    pass host purpose id world = (result, next) ∧ tidings host purpose id world = later := by
  rw [narrate_pass] at told
  cases told
  exact ⟨rfl, rfl⟩

variable {hosted : HostedPipes σ Empty} {outlook : Outlook σ ν} {Alike : σ → σ → Prop}
  {tree : Tree σ Empty} {id : NodeId} {state : σ} {cause : DetectorError} {verified : σ × Tree σ Empty}

/-- Behind a verification that succeeds, a detection has as little to hand over as one alone. -/
theorem pass_rehearsed (reflexive : ∀ state, Alike state state)
    (fit : Every (Detector.Fit hosted outlook (Dispatcher.Discreet outlook Alike) (outlook.view state))
      tree)
    (ran : checkNoChanges outlook.host id (state, tree) = (.ok (), verified)) :
    Matches outlook.host Alike id (state, tree) verified := by
  have leaves := Purpose.leaves_verify outlook (Dispatcher.Discreet outlook Alike)
  obtain ⟨⟨later, again⟩, silent⟩ := pass_again leaves fit ran .detect
  obtain ⟨_, alone, silent'⟩ := narrateVisit_rehearsed outlook.host (tree.cells.length + 1) id _ _ _
    (show visit _ _ _ id (state, tree) = _ from ran) []
  obtain ⟨passed, happened⟩ := told_pass outlook.host .detect id (state, tree) alone
  have again : detectChanges outlook.host id verified = (.ok (), (verified.1, later)) := again
  have passed : detectChanges outlook.host id (state, tree) = (.ok (), verified) := passed
  refine ⟨by rw [passed, again], ?_, by rw [passed, again]; exact reflexive verified.1⟩
  rw [calls_eq, calls_eq, ← Tidings.shapes_eq, ← Tidings.shapes_eq, happened, List.nil_append, silent',
    Tidings.shapes_of_silent silent]

/-- Behind a verification that fails and spares the pipes, a detection hands over what one alone does. -/
theorem pass_recovers
    (views : ∀ state other, Alike state other → outlook.view other = outlook.view state)
    (reflexive : ∀ state, Alike state state)
    (poised : Poised hosted outlook Alike cause (outlook.view state) tree)
    (ran : checkNoChanges outlook.host id (state, tree) = (.error cause, verified)) :
    Matches outlook.host Alike id (state, tree) verified := by
  obtain ⟨last, next⟩ := verified
  have ran : visit outlook.host .verify (tree.cells.length + 1) id (state, tree) =
    (.error cause, (last, next)) := ran
  have leaves := Purpose.leaves_verify outlook (Dispatcher.Discreet outlook Alike)
  have fitting := visit_fitting leaves (tree.cells.length + 1) id (state, tree) poised.fit
  obtain ⟨rfl, -⟩ := poised.step (visit_alike _ _ _ id) (visit_unmoved _ id) ran
  rw [ran] at fitting
  obtain ⟨results, pair⟩ := narrateVisit_recovers views reflexive (tree.cells.length + 1) id poised
    ran (.refl next) (rfl : Tidings.shapes [] = Tidings.shapes [])
  have alone := narrate_pass outlook.host .detect id (last, tree)
  have behind := narrate_pass outlook.host .detect id (last, next)
  rw [fitting.2.2.cells] at behind
  rw [alone, behind] at results pair
  refine ⟨Stateful.Agree.eq results, ?_, pair.states⟩
  rw [calls_eq, calls_eq, ← Tidings.shapes_eq, ← Tidings.shapes_eq]
  exact pair.shapes

/-- A verification makes no difference to the detection behind it, whether it succeeds or not: the
detection comes to the same result and calls dispatchers with the same notifications, up to the identity of
the containers that pipes and literals make. The exception is a verification that fails on a change in what an
expression publishes through a pipe. The pipe has taken in the change and does not publish it again. -/
theorem verify_unseen
    (views : ∀ state other, Alike state other → outlook.view other = outlook.view state)
    (reflexive : ∀ state, Alike state state) {operations : List (Operation σ Empty)}
    (ordinary : ∀ operation ∈ operations,
      operation.Ordinary hosted (Dispatcher.Discreet outlook Alike)) {start : σ}
    (clear : ∀ count, Clear outlook (after outlook.host (operations.take count) (start, {})))
    {result : Except DetectorError Unit}
    (ran : checkNoChanges outlook.host id (after outlook.host operations (start, {})) =
      (result, verified))
    (spared : ∀ cause, result = .error cause →
      Every (Detector.Spared cause) (after outlook.host operations (start, {})).2) :
    Matches outlook.host Alike id (after outlook.host operations (start, {})) verified := by
  have keeps (dispatcher : Dispatcher σ) (discreet : dispatcher.Discreet outlook Alike) :
      dispatcher.Upholds outlook := discreet.upholds
  have fit := after_fit keeps ordinary clear
  cases result with
  | ok _ => exact pass_rehearsed reflexive fit ran
  | error cause =>
    have linked : Linked _ [] := after_linked outlook.host start operations
    exact pass_recovers views reflexive ⟨linked, fit, spared cause rfl⟩ ran

end Tree

namespace Shelf

def outlook : Outlook Nat (ObjectRef → Record) := .ofRecords application records fun _ => True

/-- One expression gets a context. -/
def watching (source : Source) : List (Operation Nat Empty) :=
  [.insert { name := "a", registry, strategy := .compiled } (.detector 0) (fun _ _ => pure (.ok ()))
      [{ source, binding := ⟨"a"⟩, group := ⟨"a"⟩ }] [],
    .hydrate { index := 0, generation := 0 } scope.context scope.locals]

theorem watching_ordinary {source : Source} (parsed : source.Parsed) :
    ∀ operation ∈ watching source, operation.Ordinary registry.hosted
      (Dispatcher.Discreet outlook Eq) := by
  have discreet : Dispatcher.Discreet outlook Eq fun _ _ => pure (.ok ()) :=
    ⟨⟨fun _ _ _ _ _ _ _ => rfl, fun _ _ _ _ _ _ same => same⟩, fun _ _ _ => .refl outlook _⟩
  simp only [watching, List.forall_mem_cons, List.not_mem_nil, false_implies, implies_true,
    Operation.Ordinary, and_true]
  exact ⟨rfl, ⟨0, rfl⟩, discreet, parsed⟩

theorem watching_plain (source : Source) (count : Nat) : Tree.Plain (fun _ => True) records
    (Tree.after application ((watching source).take count) (1, {})) := by
  refine .of_payloads fun detector member => plain_of_scope (fun found seen => ?_) _
  rcases count with _ | _ | _ | count
  · cases member
  · cases List.mem_singleton.mp member
    cases seen
  all_goals
    cases List.mem_singleton.mp member
    cases seen
    rfl

theorem watching_spared {source : Source} (unpiped : source.expr.isPipe = false)
    (cause : DetectorError) :
    Every (Detector.Spared cause) (Tree.after application (watching source) (1, {})).2 := by
  refine .of_payloads fun detector member => ?_
  cases List.mem_singleton.mp member
  intro _ _ binding listed _ _ _
  cases List.mem_singleton.mp listed
  exact unpiped

/-- An expression with a pipe in a list. -/
def wrapped : Source :=
  match parse .binding "[items | iterableDiff]" "" with
  | .ok source => source
  | .error _ => { expr := .implicit, text := "", location := "", slots := 0 }

theorem wrapped_parsed : wrapped.Parsed := by
  have fine : (parse .binding "[items | iterableDiff]" "").isOk = true := by decide +kernel
  exact Source.parsed_of_isOk fine fun found parsed => by rw [wrapped, parsed]

/-- A verification fails on a change in a list with what a pipe publishes, and the detection behind it
hands over the change all the same. -/
theorem verify_unseen_wrapped :
    let world := Tree.after application (watching wrapped) (1, {})
    let id : NodeId := { index := 0, generation := 0 }
    ∃ result verified, Tree.checkNoChanges application id world = (result, verified) ∧
      result.isOk = false ∧ (Tree.calls application .detect id world).length = 1 ∧
      Tree.Matches application Eq id world verified := by
  intro world id
  have failed : (Tree.checkNoChanges application id world).1.isOk = false := by decide +kernel
  have tells : (Tree.calls application .detect id world).length = 1 := by decide +kernel
  have unpiped : wrapped.expr.isPipe = false := by decide +kernel
  rcases ran : Tree.checkNoChanges application id world with ⟨result, verified⟩
  rw [ran] at failed
  have clear (count : Nat) := (watching_plain wrapped count).clear application_records
  have views (size other : Nat) (same : size = other) : outlook.view other = outlook.view size := by
    rw [same]
  have unseen := @Tree.verify_unseen Nat _ registry.hosted outlook Eq id verified views
    (fun _ => rfl) (watching wrapped) (watching_ordinary wrapped_parsed) 1 clear result ran
    fun cause _ => watching_spared unpiped cause
  exact ⟨result, verified, rfl, failed, tells, unseen⟩

/-- A verification fails on a change in what a pipe publishes, and the detection behind it does not know
of the change any more. -/
theorem verify_hides_change :
    let world := Tree.after application history (1, {})
    let id : NodeId := { index := 0, generation := 0 }
    let verified := (Tree.checkNoChanges application id world).2
    (Tree.checkNoChanges application id world).1.isOk = false ∧
      (Tree.calls application .detect id world).length = 1 ∧
      (Tree.calls application .detect id verified).length = 0 := by
  decide +kernel

end Shelf
end ChangeWatch
