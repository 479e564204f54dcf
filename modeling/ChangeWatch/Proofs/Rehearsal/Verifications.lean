import ChangeWatch.Proofs.Rehearsal.Detectors
import ChangeWatch.Proofs.Rest.Trees
import ChangeWatch.Proofs.Solitary
import ChangeWatch.Proofs.Visits.Passes

/-!
What a verification does. A verification that succeeds does what a detection would do, which has nothing
to hand over. Every verification leaves the application as it is, and changes nothing outside the subtree
that it visits.
-/
namespace ChangeWatch

open Forest (Every Linked Within)
open Stateful (Along)

/-- An operation that does what a rehearsal does and has nothing to hand over, if the rehearsal
succeeds. -/
def ToldM.Rehearsed (told : ToldM σ κ α) (rehearsal : TreeM σ κ α) : Prop :=
  ∀ world value next, rehearsal world = (.ok value, next) → ∀ before, ∃ tidings,
    told (world, before) = (.ok value, (next, before ++ tidings)) ∧ Tidings.shapes tidings = []

namespace ToldM.Rehearsed

theorem quiet (plain : TreeM σ κ α) : Rehearsed (quiet plain) plain := by
  intro world value next ran before
  refine ⟨[], ?_, rfl⟩
  rw [ToldM.quiet, ran, List.append_nil]

theorem pure (value : α) : Rehearsed (pure value : ToldM σ κ α) (pure value : TreeM σ κ α) :=
  quiet (Pure.pure value)

theorem bind {told : ToldM σ κ α} {rehearsal : TreeM σ κ α} {toldNext : α → ToldM σ κ β}
    {next : α → TreeM σ κ β} (first : Rehearsed told rehearsal)
    (others : ∀ value, Rehearsed (toldNext value) (next value)) :
    Rehearsed (told >>= toldNext) (rehearsal >>= next) := by
  intro world value last ran before
  obtain ⟨middle, between, started, ran⟩ := Stateful.bind_ok ran
  obtain ⟨tidings, tells, silent⟩ := first world middle between started before
  obtain ⟨more, tellsMore, silentMore⟩ := others middle between value last ran (before ++ tidings)
  refine ⟨tidings ++ more, ?_, by rw [Tidings.shapes_append, silent, silentMore]; rfl⟩
  rw [Stateful.bind_of_ok tells, tellsMore, List.append_assoc]

end ToldM.Rehearsed

/-- An error that is no change in what an expression of a detector publishes through a pipe. -/
def Detector.Spared (cause : DetectorError) (detector : Detector σ κ) : Prop :=
  ∀ inner, cause = .check inner → ∀ binding ∈ detector.bindings, inner.Spares binding

theorem Binding.judge_names (binding : Binding κ) (purpose : Purpose)
    (result : Except EvalError Outcome) :
    (binding.judge purpose result).2.id = binding.id ∧
      (binding.judge purpose result).2.evaluator = binding.evaluator := by
  obtain ⟨previous, left⟩ := (binding.judged purpose result).left
  rw [left]
  exact ⟨rfl, rfl⟩

theorem Binding.check_names {host : Host σ} {registry : Registry σ κ} {scope : Scope}
    {purpose : Purpose} {binding after : Binding κ} {finding : Finding} {state later : σ}
    (ran : binding.check host registry scope purpose state = ((finding, after), later)) :
    after.id = binding.id ∧ after.evaluator = binding.evaluator := by
  have after : after = (binding.check host registry scope purpose state).1.2 := by rw [ran]
  rw [after]
  exact judge_names { binding with slots := _, evaluations := _ } purpose _

/-- A check changes neither the names nor the texts of expressions. -/
theorem Detector.Spared.check {cause : DetectorError} {detector : Detector σ κ}
    (spared : detector.Spared cause) (host : Host σ) (purpose : Purpose) (state : σ) :
    Spared cause (detector.check host purpose state).1.2 := by
  intro inner same after member
  cases given : detector.scope with
  | none =>
    rw [check_of_none _ given] at member
    exact spared inner same after member
  | some scope =>
    rw [check_of_scope _ given] at member
    have fares := (@check_fares _ _ host detector scope purpose state (fun _ => True)
      (fun _ _ _ _ _ => trivial) (fun _ _ _ _ => trivial) trivial).2
    obtain ⟨binding, listed, fare⟩ := Fares.exists_of_mem fares member
    cases fare with
    | left => exact spared inner same _ listed
    | checked _ ran =>
      obtain ⟨id, evaluator⟩ := Binding.check_names ran
      intro previous current failed
      rw [id, evaluator] at failed
      rw [evaluator]
      exact spared inner same _ listed previous current failed

section Verify

/-- What is at rest behind further checks was at rest before them. -/
theorem Detector.Rested.start {hosted : HostedPipes σ Empty} {outlook : Outlook σ ν} {seen : ν}
    {detector later : Detector σ Empty} (rested : detector.Rested hosted outlook seen later) :
    detector.Rests hosted outlook seen := by
  refine ⟨rested.registry, rested.registry, rfl, rfl, fun _ => rfl, fun scope given => ?_⟩
  have each := rested.bindings scope given
  refine List.forall₂_same.mpr fun binding member => ?_
  obtain ⟨index, bound, rfl⟩ := List.getElem_of_mem member
  obtain ⟨epoch, watch, fits, -, -, settled⟩ := each.get bound (each.length_eq ▸ bound)
  exact ⟨epoch, watch, fits, fits, rfl, settled⟩

variable {hosted : HostedPipes σ Empty} {outlook : Outlook σ ν} {Trusted : Dispatcher σ → Prop}
  {detector : Detector σ Empty} {state : σ}

/-- A verification leaves the application as it is. -/
theorem Detector.Fit.check_verify
    (fit : detector.Fit hosted outlook Trusted (outlook.view state)) :
    ∃ result after, detector.check outlook.host .verify state = ((result, after), state) ∧
      after.Fit hosted outlook Trusted (outlook.view state) := by
  have uncalled : Purpose.verify = .detect → ∀ group changes later, later = state →
    (detector.dispatcher group changes later).2 = state := nofun
  obtain ⟨result, bindings, later, ran, same, fits, -⟩ :=
    fit.check (K := fun later => later = state) uncalled (fun later same => same ▸ .refl outlook _) rfl
  subst same
  exact ⟨result, _, ran, fits⟩

end Verify

namespace Tree

theorem narrateNode_rehearsed (host : Host σ) (id : NodeId) :
    ToldM.Rehearsed (narrateNode (κ := κ) host .detect id) (checkNode host .verify id) := by
  rintro ⟨state, tree⟩ ⟨⟩ ⟨last, next⟩ ran before
  obtain ⟨node, found, total, detector, checked, rfl⟩ := checkNode_ok ran
  obtain ⟨events, told, silent⟩ := Detector.check_rehearsed checked
  refine ⟨events.map fun event => (id, event), ?_, ?_⟩
  · simp only [narrateNode, Forest.node_eq_ok.mpr found, told]
  · rw [Tidings.shapes_of_node, silent]
    rfl

theorem narrateEach_rehearsed {narrate : NodeId → ToldM σ κ Unit} {visit : NodeId → TreeM σ κ Unit}
    (each : ∀ id, ToldM.Rehearsed (narrate id) (visit id)) (ids : List NodeId) :
    ToldM.Rehearsed (narrateEach narrate ids) (visitEach visit ids) := by
  induction ids with
  | nil => exact .pure ()
  | cons id ids ih => exact .bind (each id) fun _ => ih

/-- A verification that succeeds does what a detection would do, which has nothing to hand over. -/
theorem narrateVisit_rehearsed (host : Host σ) (depth : Nat) (id : NodeId) :
    ToldM.Rehearsed (narrateVisit (κ := κ) host .detect depth id) (visit host .verify depth id) := by
  induction depth generalizing id with
  | zero => exact .pure ()
  | succ depth ih =>
    refine .bind (.quiet _) fun current => ?_
    split
    · exact .pure ()
    · refine .bind (narrateNode_rehearsed host id) fun _ => .bind (.quiet _) fun below => ?_
      exact .bind (narrateEach_rehearsed ih below) fun _ => .quiet _

section Unmoved

variable {hosted : HostedPipes σ Empty} {outlook : Outlook σ ν} {Trusted : Dispatcher σ → Prop}
  {cause : DetectorError}

/-- Worlds between which a verification may lie: the application is as it was, and detectors stay fit and
spared. -/
def Unmoved (hosted : HostedPipes σ Empty) (outlook : Outlook σ ν) (Trusted : Dispatcher σ → Prop)
    (cause : DetectorError) (world next : σ × Tree σ Empty) : Prop :=
  Every (Detector.Fit hosted outlook Trusted (outlook.view world.1)) world.2 →
    next.1 = world.1 ∧ Every (Detector.Fit hosted outlook Trusted (outlook.view world.1)) next.2 ∧
      (Every (Detector.Spared cause) world.2 → Every (Detector.Spared cause) next.2)

instance unmovedRefl : Std.Refl (Unmoved hosted outlook Trusted cause) where
  refl _ fit := ⟨rfl, fit, fun spared => spared⟩

instance unmovedTrans :
    Trans (Unmoved hosted outlook Trusted cause) (Unmoved hosted outlook Trusted cause)
      (Unmoved hosted outlook Trusted cause) where
  trans first second fit := by
    obtain ⟨same, between, spared⟩ := first fit
    obtain ⟨same', later, spared'⟩ := second (same ▸ between)
    exact ⟨same'.trans same, same ▸ later, fun before => spared' (spared before)⟩

theorem onDetector_unmoved (id : NodeId)
    {action : Detector σ Empty → StateM σ (α × Detector σ Empty)}
    (stays : ∀ detector state, detector.Fit hosted outlook Trusted (outlook.view state) →
      (action detector state).2 = state ∧
        Detector.Fit hosted outlook Trusted (outlook.view state) (action detector state).1.2 ∧
        (detector.Spared cause → Detector.Spared cause (action detector state).1.2)) :
    Along (Unmoved hosted outlook Trusted cause) (TreeM.onDetector id action) := by
  refine onDetector_along id fun state tree node found fit => ?_
  obtain ⟨same, later, spared⟩ := stays node.payload state (fit.of_some found)
  exact ⟨same, fit.modify id fun _ _ => later, fun before =>
    before.modify id fun _ _ => spared (before.of_some found)⟩

theorem checkNode_unmoved (id : NodeId) :
    Along (Unmoved hosted outlook Trusted cause) (checkNode outlook.host .verify id) := by
  refine checkNode_along (onDetector_unmoved id fun detector state fit => ?_)
  obtain ⟨result, after, ran, fits⟩ := fit.check_verify
  have spared (before : detector.Spared cause) := before.check outlook.host .verify state
  rw [ran] at spared ⊢
  exact ⟨rfl, fits, spared⟩

/-- A verification leaves the application as it is, whether it succeeds or not. -/
theorem visit_unmoved (depth : Nat) (id : NodeId) :
    Along (Unmoved hosted outlook Trusted cause) (visit outlook.host .verify depth id) :=
  visit_along checkNode_unmoved (fun _ => mark_along fun mode =>
    onDetector_unmoved _ fun _ _ fit => ⟨rfl, fit.setMode mode, fun spared => spared⟩) depth id

end Unmoved

section Outside

variable {σ κ : Type} {host : Host σ} {purpose : Purpose} {top id : NodeId} {world : σ × Tree σ κ}

/-- An operation that leaves a node alone, as seen from some world. -/
def Spares (id : NodeId) (operation : TreeM σ κ α) (world : σ × Tree σ κ) : Prop :=
  Forest.node? (operation world).2.2 id = Forest.node? world.2 id

theorem Spares.bind {first : TreeM σ κ α} {next : α → TreeM σ κ β} (before : Spares id first world)
    (behind : ∀ value between, first world = (.ok value, between) → Spares id (next value) between) :
    Spares id (first >>= next) world := by
  rw [Spares, Stateful.bind_apply]
  rcases ran : first world with ⟨result, between⟩
  rw [Spares, ran] at before
  cases result with
  | error cause => exact before
  | ok value => exact (behind value between ran).trans before

theorem spares_onDetector (apart : id ≠ top) (action : Detector σ κ → StateM σ (α × Detector σ κ))
    (world : σ × Tree σ κ) : Spares id (TreeM.onDetector top action) world := by
  obtain ⟨state, tree⟩ := world
  rw [Spares]
  cases found : tree.node? top with
  | none => rw [TreeM.onDetector_of_none found]
  | some node =>
    rw [TreeM.onDetector_of_some found]
    exact (Forest.node?_modify tree top _ id).trans (if_neg apart)

theorem spares_checkNode (apart : id ≠ top) (host : Host σ) (purpose : Purpose)
    (world : σ × Tree σ κ) : Spares id (checkNode host purpose top) world := by
  refine .bind (spares_onDetector apart _ world) fun result between _ => ?_
  cases result <;> rfl

theorem spares_visitEach {visit : NodeId → TreeM σ κ Unit}
    (alike : ∀ top, Stateful.Along (Alike) (visit top))
    (each : ∀ top world, Linked world.2 [] → ¬ Within world.2 id top → Spares id (visit top) world)
    (linked : Linked world.2 []) {ids : List NodeId} (outside : ∀ top ∈ ids, ¬ Within world.2 id top) :
    Spares id (visitEach visit ids) world := by
  induction ids generalizing world with
  | nil => rfl
  | cons top ids ih =>
    obtain ⟨here, others⟩ := List.forall_mem_cons.mp outside
    refine .bind (each top world linked here) fun _ between ran => ?_
    have kept := alike top world
    rw [ran] at kept
    refine ih (linked.alike kept) fun top member => ?_
    rw [Within, kept.parents]
    exact others top member

/-- A visit changes nothing but what belongs to the subtree of its node. -/
theorem spares_visit (linked : Linked world.2 []) (outside : ¬ Within world.2 id top)
    (depth : Nat) : Spares id (visit host purpose depth top) world := by
  induction depth generalizing world top with
  | zero => rfl
  | succ depth ih =>
    have apart : id ≠ top := by
      rintro rfl
      exact outside (.refl world.2 id)
    refine .bind (spares_onDetector apart _ world) fun current asking asked => ?_
    obtain rfl : asking = world := (congrArg Prod.snd asked).symm.trans (mode_world top world)
    split
    · rfl
    · refine .bind (spares_checkNode apart host purpose asking) fun _ checked ran => ?_
      have kept := checkNode_alike host purpose top asking
      rw [ran] at kept
      have linked := linked.alike kept
      refine .bind (by rw [Spares, children_world]) fun below asking' asked' => ?_
      obtain ⟨rfl, rfl⟩ := children_ok asked'
      refine .bind (spares_visitEach (visit_alike host purpose depth) (fun _ _ => ih) linked
        fun child listed within => ?_) fun _ later _ => ?_
      · rw [Within, kept.parents] at within
        exact outside (within.tail (kept.parents ▸ linked.parentOf_child listed))
      · exact .bind (by rw [Spares, mode_world]) fun _ marked _ => spares_onDetector apart _ marked

end Outside

section Failures

variable {σ κ : Type} {host : Host σ} {purpose : Purpose} {id : NodeId} {tree next : Tree σ κ}
  {node : Node (Detector σ κ)} {state last : σ} {cause : DetectorError} {depth : Nat}

/-- A check of a node keeps its children and its mode. -/
theorem checkNode_held {result : Except DetectorError Unit}
    (found : tree.node? id = some node)
    (ran : checkNode host purpose id (state, tree) = (result, (last, next))) :
    ∃ detector, next.node? id = some { node with payload := detector } ∧
      detector.mode = node.payload.mode := by
  have stays := @Detector.check_mode _ _ node.payload state host purpose
  rw [checkNode, Stateful.bind_apply, TreeM.onDetector_of_some found] at ran
  rcases checked : node.payload.check host purpose state with ⟨⟨outcome, detector⟩, later⟩
  rw [checked] at stays
  have changed : next = Forest.modify tree id fun node => { node with payload := detector } := by
    simp only [checked] at ran
    cases outcome <;> cases ran <;> rfl
  exact ⟨detector, changed ▸ Forest.node?_modify_of_some found _, stays⟩


/-- A visit that fails does so in the check of its node, or below the node behind a check that succeeds.
It has not marked its node. -/
theorem visit_failed (linked : Linked tree []) (found : tree.node? id = some node)
    (ran : visit host purpose (depth + 1) id (state, tree) = (.error cause, (last, next))) :
    node.payload.mode.isSkipped = false ∧ ∃ detector, detector.mode = node.payload.mode ∧
      next.node? id = some { node with payload := detector } ∧
      (checkNode host purpose id (state, tree) = (.error cause, (last, next)) ∨
        ∃ between middle, checkNode host purpose id (state, tree) = (.ok (), (between, middle)) ∧
          middle.node? id = some { node with payload := detector } ∧
          visitEach (visit host purpose depth) node.children (between, middle) =
            (.error cause, (last, next))) := by
  rw [visit, Stateful.bind_of_ok (mode_of_some found state)] at ran
  cases active : node.payload.mode.isSkipped with
  | true =>
    rw [active] at ran
    cases ran
  | false =>
    rw [active, if_neg Bool.false_ne_true, Stateful.bind_apply] at ran
    rcases checked : checkNode host purpose id (state, tree) with ⟨result, between, middle⟩
    obtain ⟨detector, held, mode⟩ := checkNode_held found checked
    refine ⟨rfl, detector, mode, ?_⟩
    rw [checked] at ran
    cases result with
    | error cause =>
      cases ran
      exact ⟨held, .inl rfl⟩
    | ok _ =>
      have kept := checkNode_alike host purpose id (state, tree)
      rw [checked] at kept
      have linked := linked.alike kept
      have spares : Spares id (visitEach (visit host purpose depth) node.children)
          (between, middle) := by
        refine spares_visitEach (visit_alike host purpose depth)
          (fun top world linked outside => spares_visit linked outside depth) linked fun top member => ?_
        exact linked.not_within_child ((Forest.childrenOf_of_some held).symm ▸ member)
      simp only [Stateful.bind_of_ok (children_of_some held between)] at ran
      rw [Stateful.bind_apply] at ran
      rcases visited : visitEach (visit host purpose depth) node.children (between, middle) with
        ⟨result, after, later⟩
      rw [Spares, visited] at spares
      have held' : later.node? id = some { node with payload := detector } := spares.trans held
      rw [visited] at ran
      cases result with
      | error cause =>
        cases ran
        exact ⟨held', .inr ⟨between, middle, rfl, held, visited⟩⟩
      | ok _ => cases (mark_of_some held' after).symm.trans ran

end Failures

end Tree
end ChangeWatch
