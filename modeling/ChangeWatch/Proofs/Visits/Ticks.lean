import ChangeWatch.Proofs.Delivery.Check
import ChangeWatch.Proofs.Forest.Payloads
import ChangeWatch.Proofs.Grouping
import ChangeWatch.Proofs.Standstill
import ChangeWatch.Proofs.Visits.Passes

/-!
A detection with a verification behind it. The verification looks again at whatever the detection has
looked at, except below detectors that were to be checked once: these have been checked by then, and are
left out with everything below them. What a verification that succeeds has looked at is as it is
remembered.
-/
namespace ChangeWatch

/-- An outcome that bears out what is remembered. -/
def Cached.Confirmed (cached : Cached) (outcome : Outcome) : Prop :=
  outcome = .noChange ∨
    ∃ previous current, cached = .set previous ∧ outcome = .value current ∧
      previous.identical current = true

theorem Checked.confirmed {checked : Checked κ} (unchanged : checked.change? = none) :
    checked.binding.previous.Confirmed checked.outcome := by
  unfold change? at unchanged
  split at unchanged
  · rename_i nothing
    exact .inl nothing
  · rename_i current came
    split at unchanged
    · cases unchanged
    · rename_i same
      cases remembered : checked.binding.previous with
      | uninitialized =>
        rw [remembered] at same
        exact absurd rfl same
      | set previous =>
        rw [remembered, Cached.differsFrom, Bool.not_eq_true, Bool.not_eq_false'] at same
        exact .inr ⟨previous, current, rfl, came, same⟩

/-- A check that passes expressions tells of the evaluations of these and of no others. -/
theorem Checked.evaluated_mem_tell {pending : Pending} {checked : List (Checked κ)} {position : Nat}
    {result : Except EvalError Outcome} :
    .evaluated position result ∈ tell pending checked ↔
      ∃ one ∈ checked, one.position = position ∧ result = .ok one.outcome := by
  have hands (pending : Pending) : .evaluated position result ∉ pending.hand := by
    unfold Pending.hand
    cases pending.group <;> simp
  have handsFor (pending : Pending) (next : Label) :
      .evaluated position result ∉ (pending.handFor next).1 := by
    unfold Pending.handFor
    cases pending.group with
    | none => simp
    | some group =>
      simp only
      split
      · simp
      · exact hands pending
  induction checked generalizing pending with
  | nil => simp [tell, hands]
  | cons one others ih =>
    have first : .evaluated position result = one.evaluation ↔
        one.position = position ∧ result = .ok one.outcome := by
      rw [evaluation, Event.evaluated.injEq, eq_comm]
    rw [tell, List.mem_append, List.mem_cons, List.exists_mem_cons_iff, or_iff_right (handsFor _ _)]
    exact or_congr first ih

/-- A check that gets through tells of one evaluation at each position that it passes. -/
theorem Progress.Explains.evaluated_mem_iff {progress : Progress κ} {count : Nat}
    {bindings : List (Binding κ)} {told : (Except CheckError Nat × List (Binding κ)) × List Event}
    (explains : progress.Explains {} count 0 bindings told)
    (passed : told.2 = Checked.tell {} progress.checked) {position : Nat}
    {result : Except EvalError Outcome} :
    .evaluated position result ∈ told.2 ↔
      ∃ one, progress.checked[position]? = some one ∧ result = .ok one.outcome := by
  rw [passed, Checked.evaluated_mem_tell]
  constructor
  · rintro ⟨one, among, rfl, rfl⟩
    obtain ⟨index, here⟩ := List.getElem?_of_mem among
    rw [explains.position_of_getElem? here]
    exact ⟨one, here, rfl⟩
  · rintro ⟨one, here, rfl⟩
    exact ⟨one, List.mem_of_getElem? here, explains.position_of_getElem? here, rfl⟩

/-- The expressions that are evaluated anywhere in a tree. -/
def Tidings.evaluations (tidings : Tidings) : List (NodeId × Nat) :=
  tidings.filterMap fun
    | (id, .evaluated position _) => some (id, position)
    | _ => none

theorem Tidings.mem_evaluations {tidings : Tidings} {id : NodeId} {position : Nat} :
    (id, position) ∈ tidings.evaluations ↔ ∃ result, (id, .evaluated position result) ∈ tidings := by
  simp only [evaluations, List.mem_filterMap]
  constructor
  · rintro ⟨⟨other, event⟩, member, found⟩
    cases event with
    | evaluated place result =>
      cases found
      exact ⟨result, member⟩
    | handed => cases found
    | dropped => cases found
  · rintro ⟨result, member⟩
    exact ⟨_, member, rfl⟩

namespace Detector

variable {host : Host σ} {detector after : Detector σ κ} {purpose : Purpose} {state later : σ}
  {total : Nat} {events : List Event}

/-- A verification hands nothing over. -/
theorem heardIn_verify (host : Host σ) (detector : Detector σ κ) (scope : Scope)
    (count position : Nat) (bindings : List (Binding κ)) (state : σ) :
    Event.heardIn (detector.narrateFrom host scope .verify {} count position bindings state).1.2 =
      [] := by
  induction bindings generalizing count position state with
  | nil => rfl
  | cons binding bindings ih =>
    rcases narrateFrom_cons host detector scope .verify {} count position binding bindings state with
      ⟨error, between, refused, -⟩ | ⟨kept, between, result, evaluated, later, -, -, told⟩
    · cases refused
    · have nothing : Pending.handFor {} binding.group = ([], {}) := rfl
      rw [told, nothing]
      rcases judged : evaluated.judge .verify result with ⟨finding, judged⟩
      cases finding with
      | failed error => simp
      | same => simp [ih]
      | changed record => exact absurd judged (Binding.judge_verify evaluated _ result record)

/-- What a check that gets through has evaluated: every expression of a detector with a context. A
verification has found each of them as it is remembered. -/
structure Evaluated (detector after : Detector σ κ) (purpose : Purpose) (events : List Event) :
    Prop where
  length : after.bindings.length = detector.bindings.length
  positions : ∀ position, (∃ result, .evaluated position result ∈ events) ↔
    detector.isHydrated = true ∧ position < detector.bindings.length
  confirmed : purpose = .verify → ∀ position result, .evaluated position result ∈ events →
    ∃ outcome binding, result = .ok outcome ∧ detector.bindings[position]? = some binding ∧
      binding.previous.Confirmed outcome

theorem evaluated_of_passed
    (ran : detector.narrate host purpose state = (((.ok total, after), events), later)) :
    detector.Evaluated after purpose events := by
  cases given : detector.scope with
  | none =>
    rw [narrate_of_none host given] at ran
    cases ran
    exact ⟨rfl, by simp [isHydrated, given], by simp⟩
  | some scope =>
    rw [narrate_of_scope host given] at ran
    obtain ⟨progress, explains⟩ := narrateFrom_explained host detector scope purpose
      Pending.empty_sound 0 0 detector.bindings state
    have silent : purpose = .verify → Event.heardIn
        (detector.narrateFrom host scope purpose {} 0 0 detector.bindings state).1.2 = [] := by
      rintro rfl
      exact heardIn_verify host detector scope 0 0 detector.bindings state
    generalize detector.narrateFrom host scope purpose {} 0 0 detector.bindings state = told
      at ran explains silent
    obtain ⟨⟨⟨result, bindings⟩, happened⟩, ended⟩ := told
    cases ran
    obtain ⟨all, left, told, -⟩ := explains.passes total rfl
    have length : progress.checked.length = detector.bindings.length := by
      rw [← explains.found, all, List.append_nil, List.length_map]
    refine ⟨?_, ?_, ?_⟩
    · have leaves := congrArg List.length explains.leaves
      rw [left, List.append_nil, List.length_map, length] at leaves
      exact leaves
    · intro position
      constructor
      · rintro ⟨result, member⟩
        obtain ⟨one, here, -⟩ := (explains.evaluated_mem_iff told).mp member
        rw [← length]
        exact ⟨Option.isSome_iff_exists.mpr ⟨scope, given⟩, (List.getElem?_eq_some_iff.mp here).1⟩
      · rintro ⟨-, bound⟩
        rw [← length] at bound
        have here := List.getElem?_eq_getElem bound
        exact ⟨_, (explains.evaluated_mem_iff told).mpr ⟨_, here, rfl⟩⟩
    · intro verifies position result member
      obtain ⟨one, here, rfl⟩ := (explains.evaluated_mem_iff told).mp member
      have unchanged : one.change? = none := by
        have heard := silent verifies
        rw [told, Checked.heardIn_tell Pending.empty_sound] at heard
        have nothing : one.changeAt? = none :=
          List.filterMap_eq_nil_iff.mp heard one (List.mem_of_getElem? here)
        exact Option.map_eq_none_iff.mp nothing
      have listed := (explains.getElem?_of_checked here).1
      exact ⟨one.outcome, one.binding, rfl, listed, Checked.confirmed unchanged⟩

end Detector
namespace Tree

open Forest (Linked)

/-- A node below another one where every detector on the way, its own included, is always checked. -/
inductive Always (tree : Tree σ κ) (top : NodeId) : NodeId → Prop where
  | top {node : Node (Detector σ κ)} (found : tree.node? top = some node)
    (always : node.payload.mode = .checkAlways) : Always tree top top
  | child {parent child : NodeId} {node : Node (Detector σ κ)} (reached : Always tree top parent)
    (listed : child ∈ Forest.childrenOf tree parent) (found : tree.node? child = some node)
    (always : node.payload.mode = .checkAlways) : Always tree top child

variable {host : Host σ} {purpose : Purpose} {tree : Tree σ κ} {id top : NodeId}

theorem Always.active (steady : Always tree top id) : Active tree top id := by
  induction steady with
  | top found always => exact .top ⟨_, found, by rw [always]; rfl⟩
  | child _ listed found always ih => exact .child ih listed ⟨_, found, by rw [always]; rfl⟩

theorem Always.mode (steady : Always tree top id) :
    ∃ node, tree.node? id = some node ∧ node.payload.mode = .checkAlways := by
  cases steady with
  | top found always => exact ⟨_, found, always⟩
  | child _ _ found always => exact ⟨_, found, always⟩

/-- Every inspection is a check of a node as the tree has it. -/
theorem Inspects.ran {course : List (Inspection σ κ)} {state later : σ}
    (inspects : Inspects host purpose tree state course later) :
    ∀ inspection ∈ course, ∃ node before total after, tree.node? inspection.id = some node ∧
      node.payload.narrate host purpose before =
        (((.ok total, inspection.detector), inspection.events), after) := by
  induction inspects with
  | nil => exact fun _ member => by cases member
  | cons found ran _ ih => exact List.forall_mem_cons.mpr ⟨⟨_, _, _, _, found, ran⟩, ih⟩

/-- What a pass that gets through has evaluated, and what it leaves of the tree. -/
structure Through (host : Host σ) (purpose : Purpose) (top : NodeId) (world next : σ × Tree σ κ) :
    Prop where
  evaluated : ∀ id position, (id, position) ∈ (tidings host purpose top world).evaluations ↔
      Active world.2 top id ∧ ∃ node, world.2.node? id = some node ∧
        node.payload.isHydrated = true ∧ position < node.payload.bindings.length
  confirmed : purpose = .verify → ∀ id position result,
    (id, .evaluated position result) ∈ tidings host purpose top world →
      ∃ outcome node binding, result = .ok outcome ∧ world.2.node? id = some node ∧
        node.payload.bindings[position]? = some binding ∧ binding.previous.Confirmed outcome
  active : ∀ id node, Active world.2 top id → world.2.node? id = some node →
    ∃ bindings, bindings.length = node.payload.bindings.length ∧
      next.2.node? id = some { node with
        payload := { node.payload with bindings, mode := node.payload.mode.afterVisit } }
  others : ∀ id, ¬ Active world.2 top id → next.2.node? id = world.2.node? id
  children : Forest.childrenOf next.2 = Forest.childrenOf world.2

theorem mem_courseTidings {course : List (Inspection σ κ)} {event : Event} :
    (id, event) ∈ courseTidings course ↔
      ∃ inspection ∈ course, inspection.id = id ∧ event ∈ inspection.events := by
  simp only [courseTidings, List.mem_flatMap, Inspection.tidings, List.mem_map, Prod.mk.injEq]
  refine exists_congr fun inspection => and_congr_right fun _ => ?_
  constructor
  · rintro ⟨_, member, rfl, rfl⟩
    exact ⟨rfl, member⟩
  · rintro ⟨rfl, member⟩
    exact ⟨event, member, rfl, rfl⟩

theorem contains_of_pass_ok {world next : σ × Tree σ κ}
    (ran : pass host purpose top world = (.ok (), next)) : Forest.contains world.2 top = true := by
  obtain ⟨current, between, asked, -⟩ := Stateful.bind_ok ran
  obtain ⟨-, node, found, -⟩ := exists_of_mode asked
  exact Forest.contains_iff.mpr ⟨node, found⟩

theorem Through.of_ok {world next : σ × Tree σ κ} (linked : Linked world.2 [])
    (ran : pass host purpose top world = (.ok (), next)) : Through host purpose top world next := by
  obtain ⟨visited, walk, -, ends⟩ :=
    exists_pass_ends host purpose linked (contains_of_pass_ok ran) world.1
  have alike := pass_alike host purpose top world
  rw [ran] at alike
  have active (id : NodeId) : id ∈ visited ↔ Active world.2 top id := by
    rw [walk.mem_iff]
    simp only [List.mem_singleton, exists_eq_left]
  rcases ends _ _ ran with ⟨course, later, tree, ended, passed⟩ | ⟨_, _, _, _, _, _, ended, -⟩
  · simp only [Prod.mk.injEq, List.nil_append] at ended
    obtain ⟨-, rfl, told⟩ := ended
    have inspected (id : NodeId) :
        Active world.2 top id ↔ ∃ inspection ∈ course, inspection.id = id := by
      rw [← active, ← passed.order, List.mem_map]
    -- The node of an inspection, with what its check has evaluated.
    have checked (inspection : Inspection σ κ) (member : inspection ∈ course) :
        ∃ node, world.2.node? inspection.id = some node ∧
          node.payload.Evaluated inspection.detector purpose inspection.events := by
      obtain ⟨node, _, _, _, found, ran⟩ := passed.inspects.ran inspection member
      exact ⟨node, found, Detector.evaluated_of_passed ran⟩
    refine ⟨fun id position => ?_, fun verifies id position result member => ?_,
      fun id node reached found => ?_, fun id asleep => ?_, alike.children⟩
    · rw [Tidings.mem_evaluations, told, inspected]
      constructor
      · rintro ⟨result, member⟩
        obtain ⟨inspection, among, rfl, happened⟩ := mem_courseTidings.mp member
        obtain ⟨node, found, evaluated⟩ := checked inspection among
        exact ⟨⟨inspection, among, rfl⟩, node, found,
          (evaluated.positions position).mp ⟨result, happened⟩⟩
      · rintro ⟨⟨inspection, among, rfl⟩, node, found, hydrated, bound⟩
        obtain ⟨node', found', evaluated⟩ := checked inspection among
        cases found.symm.trans found'
        obtain ⟨result, happened⟩ := (evaluated.positions position).mpr ⟨hydrated, bound⟩
        exact ⟨result, mem_courseTidings.mpr ⟨inspection, among, rfl, happened⟩⟩
    · rw [told] at member
      obtain ⟨inspection, among, rfl, happened⟩ := mem_courseTidings.mp member
      obtain ⟨node, found, evaluated⟩ := checked inspection among
      obtain ⟨outcome, binding, rfl, placed, confirmed⟩ :=
        evaluated.confirmed verifies position result happened
      exact ⟨outcome, node, binding, rfl, found, placed, confirmed⟩
    · obtain ⟨inspection, among, rfl⟩ := (inspected id).mp reached
      obtain ⟨node', found', evaluated⟩ := checked inspection among
      cases found.symm.trans found'
      obtain ⟨node', found', left⟩ := passed.marked inspection among
      cases found.symm.trans found'
      refine ⟨inspection.detector.bindings, evaluated.length, left.trans ?_⟩
      rw [Inspection.marked, (passed.inspects.detector inspection among node found).1]
    · exact passed.others id fun member => asleep ((active id).mp member)
  · cases ended

theorem Through.awake {world next : σ × Tree σ κ} (through : Through host purpose top world next)
    (awake : Awake next.2 id) (reached : Awake world.2 id → Active world.2 top id) :
    ∃ node, world.2.node? id = some node ∧ node.payload.mode = .checkAlways := by
  obtain ⟨later, left, awake⟩ := awake
  by_cases active : Active world.2 top id
  · have settled {mode : Mode} : mode.isSkipped = false → mode.afterVisit.isSkipped = false →
        mode = .checkAlways := by
      cases mode <;> decide
    obtain ⟨node, found, before⟩ := active.awake
    obtain ⟨bindings, -, left'⟩ := through.active id node active found
    cases left.symm.trans left'
    exact ⟨node, found, settled before awake⟩
  · rw [through.others id active] at left
    exact absurd (reached ⟨later, left, awake⟩) active

/-- Behind a pass that gets through, the active nodes are those that are always checked. -/
theorem Through.active_iff {world next : σ × Tree σ κ}
    (through : Through host purpose top world next) :
    Active next.2 top id ↔ Always world.2 top id := by
  constructor
  · intro active
    induction active with
    | top awake =>
      obtain ⟨node, found, always⟩ := through.awake awake .top
      exact .top found always
    | child _ listed awake ih =>
      rw [through.children] at listed
      obtain ⟨node, found, always⟩ := through.awake awake (.child ih.active listed)
      exact .child ih listed found always
  · intro steady
    have awake {id : NodeId} (steady : Always world.2 top id) : Awake next.2 id := by
      obtain ⟨node, found, always⟩ := steady.mode
      obtain ⟨bindings, -, left⟩ := through.active id node steady.active found
      exact ⟨_, left, by simp only [always]; rfl⟩
    induction steady with
    | top found always => exact .top (awake (.top found always))
    | child reached listed found always ih =>
      exact .child ih (through.children ▸ listed) (awake (.child reached listed found always))

/-- A tick with a verification that gets through has evaluated, in the verification, the expressions
that the detection has evaluated in detectors with nothing but detectors to be checked always on the way,
their own included, and no others. Each of them was found as it was remembered. -/
theorem tick_verifies (host : Host σ) (start : σ) (operations : List (Operation σ κ)) (root : NodeId)
    {ended : σ × Tree σ κ}
    (ran : LifeCycle.tick host { root, enforceNoNewChanges := true }
      (after host operations (start, {})) = (.ok (), ended)) :
    let world := after host operations (start, {})
    ∃ changed, detectChanges host root world = (.ok (), changed) ∧
      checkNoChanges host root changed = (.ok (), ended) ∧
      (∀ id position, (id, position) ∈ (tidings host .verify root changed).evaluations ↔
        (id, position) ∈ (tidings host .detect root world).evaluations ∧
          Always world.2 root id) ∧
      ∀ id position result,
        (id, .evaluated position result) ∈ tidings host .verify root changed →
          ∃ outcome node binding, result = .ok outcome ∧ changed.2.node? id = some node ∧
            node.payload.bindings[position]? = some binding ∧
            binding.previous.Confirmed outcome := by
  intro world
  have linked : Linked world.2 [] := after_linked host start operations
  obtain ⟨⟨⟩, changed, detected, verified⟩ := Stateful.bind_ok ran
  have linked' : Linked changed.2 [] := by
    have kept := pass_alike host .detect root world
    rw [show pass host .detect root world = _ from detected] at kept
    exact linked.alike kept
  have first : Through host .detect root world changed := .of_ok linked detected
  have second : Through host .verify root changed ended := .of_ok linked' verified
  refine ⟨changed, detected, verified, fun id position => ?_, second.confirmed rfl⟩
  rw [first.evaluated, second.evaluated, first.active_iff]
  constructor
  · rintro ⟨steady, later, left, hydrated, bound⟩
    obtain ⟨node, found, -⟩ := steady.mode
    obtain ⟨bindings, length, left'⟩ := first.active id node steady.active found
    cases left.symm.trans left'
    exact ⟨⟨steady.active, node, found, hydrated, length ▸ bound⟩, steady⟩
  · rintro ⟨⟨active, node, found, hydrated, bound⟩, steady⟩
    obtain ⟨bindings, length, left⟩ := first.active id node active found
    exact ⟨steady, _, left, hydrated, length.symm ▸ bound⟩

end Tree

/-- A tick of the shelf evaluates its expression once more. -/
theorem Shelf.tick_verifies_history :
    let world := Tree.after application history (1, {})
    let id : NodeId := { index := 0, generation := 0 }
    ∃ changed ended, LifeCycle.tick application { root := id, enforceNoNewChanges := true } world =
        (.ok (), ended) ∧
      Tree.detectChanges application id world = (.ok (), changed) ∧
      (id, 0) ∈ (Tree.tidings application .verify id changed).evaluations := by
  intro world id
  have fine : (LifeCycle.tick application { root := id, enforceNoNewChanges := true } world).1.isOk =
      true := by
    decide +kernel
  rcases ran : LifeCycle.tick application { root := id, enforceNoNewChanges := true } world with
    ⟨result, ended⟩
  rw [ran] at fine
  cases result with
  | error cause => cases fine
  | ok =>
    obtain ⟨changed, detected, -, evaluated, -⟩ := Tree.tick_verifies application 1 history id ran
    have before : (id, 0) ∈ (Tree.tidings application .detect id world).evaluations := by
      decide +kernel
    have always : Tree.Always world.2 id id := .top rfl rfl
    exact ⟨changed, ended, rfl, detected, (evaluated id 0).mpr ⟨before, always⟩⟩

namespace Counter

/-- An application whose functions count all calls. -/
def application : Host Nat :=
  .ofFields (fun _ _ count => (.ok (.int (.ofNat count)), count + 1))
    (fun ref name => throw (.unknownField ref.typeName name)) (fun _ _ => []) fun _ => 0

def source : Source :=
  match parse .binding "next()" "" with
  | .ok source => source
  | .error _ => { expr := .implicit, text := "", location := "", slots := 0 }

def id : NodeId := { index := 0, generation := 0 }

/-- The next number is watched by a detector with some mode. -/
def watched (mode : Mode) : List (Operation Nat Empty) :=
  [.insert { name := "a", registry := Shelf.registry, strategy := .compiled } (.detector 0) .silent
      [{ source, binding := ⟨"a"⟩, group := ⟨"a"⟩ }] [],
    .hydrate id (.map (.host 0) [("next", .function { id := 0 })]) [],
    .setMode id mode]

/-- A tick with a verification overlooks a change of what is checked once, and finds it in what is
checked always. -/
theorem tick_overlooks_change :
    let world := Tree.after application (watched .checkOnce) (0, {})
    let changed := (Tree.detectChanges application id world).2
    let lifeCycle : LifeCycle := { root := id, enforceNoNewChanges := true }
    (lifeCycle.tick application world).1.isOk = true ∧
      (Tree.tidings application .detect id world).evaluations = [(id, 0)] ∧
      (Tree.tidings application .verify id changed).evaluations = [] ∧
      (lifeCycle.tick application
        (Tree.after application (watched .checkAlways) (0, {}))).1.isOk = false := by
  decide +kernel

end Counter
end ChangeWatch
