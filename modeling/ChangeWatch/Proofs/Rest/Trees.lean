import ChangeWatch.Proofs.Delivery.Pass
import ChangeWatch.Proofs.Forest.Payloads
import ChangeWatch.Proofs.Histories
import ChangeWatch.Proofs.Rest.Detectors

/-!
Trees at rest. A pass that succeeds leaves every detector that it would visit again at rest, and a pass
over detectors at rest succeeds, hands nothing over and changes nothing that a pass could see.
-/
namespace ChangeWatch

open Forest (Every)
open Stateful (Along)

/-- What may become of a mode in the course of a pass. -/
def Mode.Visited (before after : Mode) : Prop := after = before ∨ after = before.afterVisit

namespace Mode.Visited

variable {first second third : Mode}

theorem refl (mode : Mode) : Visited mode mode := .inl rfl

theorem afterVisit (mode : Mode) : Visited mode mode.afterVisit := .inr rfl

theorem trans (before : Visited first second) (behind : Visited second third) :
    Visited first third := by
  rcases before with rfl | rfl <;> rcases behind with rfl | rfl
  · exact .inl rfl
  · exact .inr rfl
  · exact .inr rfl
  · cases first <;> exact .inr rfl

theorem isSkipped (visited : Visited first second) (skipped : first.isSkipped = true) :
    second.isSkipped = true := by
  cases first <;> rcases visited with rfl | rfl <;> simp_all [Mode.isSkipped, Mode.afterVisit]

theorem checkAlways (visited : Visited .checkAlways second) : second = .checkAlways := by
  rcases visited with rfl | rfl <;> rfl

/-- A mode that is not skipped stays what it is, or is skipped once the visit is over. -/
theorem settled (visited : Visited first second) (active : first.isSkipped = false) :
    second.afterVisit.isSkipped = true ∨ second.afterVisit = .checkAlways := by
  cases first <;> rcases visited with rfl | rfl <;> simp_all [Mode.isSkipped, Mode.afterVisit]

end Mode.Visited

namespace Tree

section Steps

variable {tree : Tree σ κ} {id : NodeId} {node : Node (Detector σ κ)}

theorem exists_of_mode {world next : σ × Tree σ κ} {current : Mode}
    (ran : mode id world = (.ok current, next)) :
    next = world ∧ ∃ node, world.2.node? id = some node ∧ node.payload.mode = current := by
  obtain ⟨state, tree⟩ := world
  cases found : tree.node? id with
  | none =>
    rw [mode, TreeM.onDetector_of_none found] at ran
    cases ran
  | some node =>
    rw [mode_of_some found] at ran
    cases ran
    exact ⟨rfl, node, rfl, rfl⟩

/-- A check of one node that succeeds. -/
theorem checkNode_ok {host : Host σ} {purpose : Purpose} {state : σ} {next : σ × Tree σ κ}
    (ran : checkNode host purpose id (state, tree) = (.ok (), next)) :
    ∃ node, tree.node? id = some node ∧ ∃ total detector,
      node.payload.check host purpose state = ((.ok total, detector), next.1) ∧
      next.2 = Forest.modify tree id fun other => { other with payload := detector } := by
  rw [checkNode, Stateful.bind_apply] at ran
  cases found : tree.node? id with
  | none =>
    rw [TreeM.onDetector_of_none found] at ran
    cases ran
  | some node =>
    rw [TreeM.onDetector_of_some found] at ran
    rcases checked : node.payload.check host purpose state with ⟨⟨result, detector⟩, later⟩
    simp only [checked] at ran
    cases result with
    | error cause => cases ran
    | ok total =>
      cases ran
      exact ⟨node, rfl, total, detector, checked, rfl⟩

end Steps

variable {hosted : HostedPipes σ Empty} {outlook : Outlook σ ν} {Trusted : Dispatcher σ → Prop}
  {seen : ν} {tree next last : Tree σ Empty} {id : NodeId} {node : Node (Detector σ Empty)}
  {purpose : Purpose} {state : σ} {depth : Nat}

/-- A tree in which a pass may have visited some nodes: detectors at rest are still at rest, and modes
change at the end of a visit only. -/
structure Calmer (hosted : HostedPipes σ Empty) (outlook : Outlook σ ν) (seen : ν)
    (tree next : Tree σ Empty) : Prop where
  cells : next.cells.length = tree.cells.length
  node : ∀ id node, tree.node? id = some node → ∃ later, next.node? id = some later ∧
    later.children = node.children ∧ node.payload.mode.Visited later.payload.mode ∧
    (node.payload.Rests hosted outlook seen → later.payload.Rests hosted outlook seen)

namespace Calmer

theorem refl (tree : Tree σ Empty) : Calmer hosted outlook seen tree tree where
  cells := rfl
  node _ node found := ⟨node, found, rfl, .refl _, fun rests => rests⟩

theorem trans (first : Calmer hosted outlook seen tree next)
    (second : Calmer hosted outlook seen next last) : Calmer hosted outlook seen tree last where
  cells := second.cells.trans first.cells
  node id node found := by
    obtain ⟨between, found', children, mode, rests⟩ := first.node id node found
    obtain ⟨later, found'', children', mode', rests'⟩ := second.node id between found'
    exact ⟨later, found'', children'.trans children, mode.trans mode', fun rest =>
      rests' (rests rest)⟩

theorem modify (found : tree.node? id = some node) {detector : Detector σ Empty}
    (mode : node.payload.mode.Visited detector.mode)
    (rests : node.payload.Rests hosted outlook seen → detector.Rests hosted outlook seen) :
    Calmer hosted outlook seen tree
      (Forest.modify tree id fun other => { other with payload := detector }) where
  cells := by simp [Forest.modify]
  node other here looked := by
    by_cases same : other = id
    · subst same
      cases looked.symm.trans found
      exact ⟨_, Forest.node?_modify_of_some found _, rfl, mode, rests⟩
    · rw [Forest.node?_modify, if_neg same]
      exact ⟨here, looked, rfl, .refl _, fun rest => rest⟩

end Calmer

/-- Worlds between which detectors stay fit for what there is to see. -/
def Keeping (hosted : HostedPipes σ Empty) (outlook : Outlook σ ν)
    (Trusted : Dispatcher σ → Prop) (world next : σ × Tree σ Empty) : Prop :=
  Every (Detector.Fit hosted outlook Trusted (outlook.view world.1)) world.2 →
    outlook.Keeps (outlook.view world.1) (outlook.view next.1) ∧
      Every (Detector.Fit hosted outlook Trusted (outlook.view next.1)) next.2

instance keepingRefl : Std.Refl (Keeping hosted outlook Trusted) where
  refl _ fit := ⟨.refl outlook _, fit⟩

instance keepingTrans :
    Trans (Keeping hosted outlook Trusted) (Keeping hosted outlook Trusted)
      (Keeping hosted outlook Trusted) where
  trans first second fit := by
    obtain ⟨keeps, between⟩ := first fit
    obtain ⟨keeps', later⟩ := second between
    exact ⟨keeps.trans keeps', later⟩

/-- A visit keeps detectors fit when dispatchers put no reported containers into the application. -/
theorem visit_keeping (keeps : ∀ dispatcher, Trusted dispatcher → dispatcher.Upholds outlook)
    (purpose : Purpose) (depth : Nat) (id : NodeId) :
    Along (Keeping hosted outlook Trusted) (visit outlook.host purpose depth id) := by
  have onDetector (id : NodeId) {α : Type}
      {action : Detector σ Empty → StateM σ (α × Detector σ Empty)}
      (stays : ∀ detector state, detector.Fit hosted outlook Trusted (outlook.view state) →
        outlook.Keeps (outlook.view state) (outlook.view (action detector state).2) ∧
          Detector.Fit hosted outlook Trusted (outlook.view (action detector state).2)
            (action detector state).1.2) :
      Along (Keeping hosted outlook Trusted) (TreeM.onDetector id action) := by
    refine onDetector_along id fun state tree node found fit => ?_
    obtain ⟨kept, later⟩ := stays node.payload state (fit.of_some found)
    have others := fit.mono fun detector fit => fit.mono kept
    exact ⟨kept, others.modify id fun _ _ => later⟩
  refine visit_along (fun id => ?_) (fun id => mark_along fun mode => ?_) depth id
  · refine checkNode_along (onDetector id fun detector state fit => ?_)
    obtain ⟨result, bindings, later, ran, kept, fits⟩ := fit.check_keeps keeps purpose
    rw [ran]
    exact ⟨kept, fits⟩
  · exact onDetector id fun detector state fit => ⟨.refl outlook _, fit.setMode mode⟩

/-- Worlds between which the view stays, detectors stay fit for it, and what is at rest stays at
rest. -/
def Fitting (hosted : HostedPipes σ Empty) (outlook : Outlook σ ν)
    (Trusted : Dispatcher σ → Prop) (world next : σ × Tree σ Empty) : Prop :=
  Every (Detector.Fit hosted outlook Trusted (outlook.view world.1)) world.2 →
    outlook.view next.1 = outlook.view world.1 ∧
      Every (Detector.Fit hosted outlook Trusted (outlook.view world.1)) next.2 ∧
      Calmer hosted outlook (outlook.view world.1) world.2 next.2

instance fittingRefl : Std.Refl (Fitting hosted outlook Trusted) where
  refl world fit := ⟨rfl, fit, .refl world.2⟩

instance fittingTrans :
    Trans (Fitting hosted outlook Trusted) (Fitting hosted outlook Trusted)
      (Fitting hosted outlook Trusted) where
  trans first second fit := by
    obtain ⟨same, between, calmer⟩ := first fit
    obtain ⟨same', later, calmer'⟩ := second (same ▸ between)
    exact ⟨same'.trans same, same ▸ later, calmer.trans (same ▸ calmer')⟩

theorem onDetector_fitting (id : NodeId)
    {action : Detector σ Empty → StateM σ (α × Detector σ Empty)}
    (fits : ∀ detector state, Detector.Fit hosted outlook Trusted (outlook.view state) detector →
      let acted := action detector state
      outlook.view acted.2 = outlook.view state ∧
        Detector.Fit hosted outlook Trusted (outlook.view state) acted.1.2 ∧
        detector.mode.Visited acted.1.2.mode ∧
        (detector.Rests hosted outlook (outlook.view state) →
          acted.1.2.Rests hosted outlook (outlook.view state))) :
    Along (Fitting hosted outlook Trusted) (TreeM.onDetector id action) := by
  refine onDetector_along id fun state tree node found fit => ?_
  obtain ⟨same, later, mode, rests⟩ := fits node.payload state (fit.of_some found)
  exact ⟨same, fit.modify id fun _ _ => later, .modify found mode rests⟩

theorem checkNode_fitting (leaves : purpose.Leaves outlook Trusted)
    (id : NodeId) : Along (Fitting hosted outlook Trusted) (checkNode outlook.host purpose id) := by
  refine checkNode_along (onDetector_fitting id fun detector state fit => ?_)
  obtain ⟨result, bindings, later, ran, same, fits, -⟩ := fit.check_rests leaves
  rw [ran]
  refine ⟨same, fits, .refl _, fun rests => ?_⟩
  obtain ⟨bindings', events, told, -, rest⟩ := Detector.Rested.narrate rests purpose
  have plain := detector.narrate_erases outlook.host purpose state
  rw [told, ran] at plain
  cases plain
  exact rest.rests

/-- The end of a visit keeps what is at rest, and marks that the visit is over. -/
theorem mark_fitting (id : NodeId) :
    Along (Fitting hosted outlook Trusted) (do setMode id (← mode id).afterVisit) := by
  rintro ⟨state, tree⟩ fit
  cases found : tree.node? id with
  | none =>
    rw [mode, Stateful.bind_of_error (TreeM.onDetector_of_none found)]
    exact ⟨rfl, fit, .refl tree⟩
  | some node =>
    rw [mark_of_some found]
    exact ⟨rfl, fit.modify id fun _ _ => (fit.of_some found).setMode _,
      .modify found (.afterVisit _) fun rests => rests.setMode _ _⟩

/-- A visit keeps detectors fit and what is at rest, whether it succeeds or not. -/
theorem visit_fitting (leaves : purpose.Leaves outlook Trusted)
    (depth : Nat) (id : NodeId) :
    Along (Fitting hosted outlook Trusted) (visit outlook.host purpose depth id) :=
  visit_along (checkNode_fitting leaves) mark_fitting depth id

/-- Whatever a visit of a node would check, at most the given number of levels deep, is at rest and
stays in every pass. -/
def Quiet (hosted : HostedPipes σ Empty) (outlook : Outlook σ ν) (seen : ν)
    (tree : Tree σ Empty) : Nat → NodeId → Prop
  | 0, _ => True
  | depth + 1, id => ∃ node, tree.node? id = some node ∧
    (node.payload.mode.isSkipped = true ∨ node.payload.mode = .checkAlways ∧
      node.payload.Rests hosted outlook seen ∧
      ∀ child ∈ node.children, Quiet hosted outlook seen tree depth child)

theorem Quiet.mono (calmer : Calmer hosted outlook seen tree next)
    (quiet : Quiet hosted outlook seen tree depth id) : Quiet hosted outlook seen next depth id := by
  induction depth generalizing id with
  | zero => trivial
  | succ depth ih =>
    obtain ⟨node, found, state⟩ := quiet
    obtain ⟨later, found', children, mode, rests⟩ := calmer.node id node found
    refine ⟨later, found', ?_⟩
    rcases state with skipped | ⟨always, rest, below⟩
    · exact .inl (mode.isSkipped skipped)
    · refine .inr ⟨(always ▸ mode).checkAlways, rests rest, ?_⟩
      intro child member
      exact ih (below child (children ▸ member))

/-- A check of a node that succeeds brings its detector to rest. -/
theorem checkNode_rests (leaves : purpose.Leaves outlook Trusted)
    {after : σ × Tree σ Empty}
    (fit : Every (Detector.Fit hosted outlook Trusted (outlook.view state)) tree)
    (ran : checkNode outlook.host purpose id (state, tree) = (.ok (), after))
    {later : Node (Detector σ Empty)} (found : after.2.node? id = some later) :
    later.payload.Rests hosted outlook (outlook.view state) := by
  obtain ⟨last, next⟩ := after
  obtain ⟨node, held, total, detector, checked, changed⟩ := checkNode_ok ran
  obtain ⟨result, bindings, _, checked', -, -, rests⟩ :=
    (fit.of_some held).check_rests leaves
  cases checked'.symm.trans checked
  subst changed
  cases (Forest.node?_modify_of_some held _).symm.trans found
  exact rests total rfl

/-- Visits one after the other that succeed leave what each of them leaves. -/
theorem visitEach_quiet {visit : NodeId → TreeM σ Empty Unit}
    (fits : ∀ id, Along (Fitting hosted outlook Trusted) (visit id))
    (each : ∀ id state tree after,
      Every (Detector.Fit hosted outlook Trusted (outlook.view state)) tree →
      visit id (state, tree) = (.ok (), after) →
      Quiet hosted outlook (outlook.view state) after.2 depth id)
    {ids : List NodeId} {after : σ × Tree σ Empty}
    (fit : Every (Detector.Fit hosted outlook Trusted (outlook.view state)) tree)
    (ran : visitEach visit ids (state, tree) = (.ok (), after)) :
    ∀ id ∈ ids, Quiet hosted outlook (outlook.view state) after.2 depth id := by
  induction ids generalizing state tree with
  | nil => exact fun _ member => by cases member
  | cons id ids ih =>
    obtain ⟨⟨⟩, ⟨between, middle⟩, visited, ran⟩ := Stateful.bind_ok ran
    have kept := fits id (state, tree) fit
    rw [visited] at kept
    obtain ⟨same, fit', -⟩ : outlook.view between = outlook.view state ∧ Every _ middle ∧ _ := kept
    have others := visitEach_along fits ids (between, middle) (same ▸ fit')
    rw [ran] at others
    have rest := ih (same ▸ fit') ran
    rw [same] at rest
    refine List.forall_mem_cons.mpr ⟨?_, rest⟩
    exact (each id state tree _ fit visited).mono (same ▸ others.2.2)

/-- A visit that succeeds leaves whatever it would visit again at rest. -/
theorem visit_quiet (leaves : purpose.Leaves outlook Trusted)
    {after : σ × Tree σ Empty}
    (fit : Every (Detector.Fit hosted outlook Trusted (outlook.view state)) tree)
    (ran : visit outlook.host purpose depth id (state, tree) = (.ok (), after)) :
    Quiet hosted outlook (outlook.view state) after.2 depth id := by
  induction depth generalizing id state tree after with
  | zero => trivial
  | succ depth ih =>
    obtain ⟨current, asking, asked, ran⟩ := Stateful.bind_ok ran
    obtain ⟨rfl, node, found, rfl⟩ := exists_of_mode asked
    cases active : node.payload.mode.isSkipped with
    | true =>
      rw [active] at ran
      cases ran
      exact ⟨node, found, .inl active⟩
    | false =>
      rw [active] at ran
      obtain ⟨⟨⟩, ⟨state₁, tree₁⟩, checked, ran⟩ := Stateful.bind_ok ran
      have first := checkNode_fitting leaves id (state, tree) fit
      rw [checked] at first
      obtain ⟨same, fit₁, calmer⟩ :
        outlook.view state₁ = outlook.view state ∧ Every _ tree₁ ∧ Calmer _ _ _ tree tree₁ := first
      obtain ⟨node₁, found₁, children₁, mode₁, -⟩ := calmer.node id node found
      have rest := checkNode_rests leaves fit checked found₁
      obtain ⟨below, listing, asked, ran⟩ := Stateful.bind_ok ran
      cases (children_of_some found₁ state₁).symm.trans asked
      obtain ⟨⟨⟩, ⟨state₂, tree₂⟩, visited, ran⟩ := Stateful.bind_ok ran
      have fits (id : NodeId) : Along (Fitting hosted outlook Trusted)
          (visit outlook.host purpose depth id) := visit_fitting leaves depth id
      have quiet := visitEach_quiet fits (fun _ _ _ _ => ih) (same ▸ fit₁) visited
      have second := visitEach_along fits node₁.children (state₁, tree₁) (same ▸ fit₁)
      rw [visited] at second
      obtain ⟨-, -, calmer⟩ :
        _ ∧ _ ∧ Calmer hosted outlook (outlook.view state₁) tree₁ tree₂ := second
      rw [same] at quiet calmer
      obtain ⟨node₂, found₂, children₂, mode₂, keeps⟩ := calmer.node id node₁ found₁
      obtain rfl := congrArg Prod.snd ((mark_of_some found₂ state₂).symm.trans ran)
      let marking : Node (Detector σ Empty) → Node (Detector σ Empty) := fun other =>
        { other with payload := { node₂.payload with mode := node₂.payload.mode.afterVisit } }
      have marked : Calmer hosted outlook (outlook.view state) tree₂
          (Forest.modify tree₂ id marking) :=
        .modify found₂ (.afterVisit _) fun rest => rest.setMode _ _
      refine ⟨_, Forest.node?_modify_of_some found₂ _, ?_⟩
      rcases (mode₁.trans mode₂).settled active with skipped | always
      · exact .inl skipped
      · refine .inr ⟨always, (keeps rest).setMode _ _, fun child member => ?_⟩
        exact (quiet child (children₂ ▸ member)).mono marked

/-- What silent passes leave of a tree: some detectors at rest have been checked. -/
structure Echo (hosted : HostedPipes σ Empty) (outlook : Outlook σ ν) (seen : ν)
    (tree later : Tree σ Empty) : Prop where
  node : ∀ id node, tree.node? id = some node → ∃ node', later.node? id = some node' ∧
    node'.children = node.children ∧ node'.payload.mode = node.payload.mode ∧
    (node'.payload = node.payload ∨ node.payload.Rested hosted outlook seen node'.payload)
  missing : ∀ id, tree.node? id = none → later.node? id = none

theorem Echo.refl (tree : Tree σ Empty) : Echo hosted outlook seen tree tree :=
  ⟨fun _ node found => ⟨node, found, rfl, rfl, .inl rfl⟩, fun _ missing => missing⟩

theorem Echo.modify (echo : Echo hosted outlook seen tree next) (found : tree.node? id = some node)
    {detector : Detector σ Empty} (mode : detector.mode = node.payload.mode)
    (rested : node.payload.Rested hosted outlook seen detector) :
    Echo hosted outlook seen tree
      (Forest.modify next id fun other => { other with payload := detector }) := by
  refine ⟨fun other here looked => ?_, fun other absent => ?_⟩
  · obtain ⟨there, looked', children, modes, payload⟩ := echo.node other here looked
    by_cases same : other = id
    · subst same
      cases looked.symm.trans found
      exact ⟨_, Forest.node?_modify_of_some looked' _, children, mode, .inr rested⟩
    · rw [Forest.node?_modify, if_neg same]
      exact ⟨there, looked', children, modes, payload⟩
  · rw [Forest.node?_modify, echo.missing other absent]
    split <;> rfl

/-- An operation that succeeds behind silent passes over a tree, tells of nothing that is handed over,
and is silent itself. -/
def Silent (hosted : HostedPipes σ Empty) (outlook : Outlook σ ν) (seen : ν)
    (state : σ) (tree later : Tree σ Empty) (operation : ToldM σ Empty Unit) : Prop :=
  ∀ told, ∃ next events,
    operation ((state, later), told) = (.ok (), ((state, next), told ++ events)) ∧
      Echo hosted outlook seen tree next ∧ ∀ event ∈ events, event.2.calls = []

namespace Silent

variable {later : Tree σ Empty}

theorem pure (echo : Echo hosted outlook seen tree later) :
    Silent hosted outlook seen state tree later (pure ()) :=
  fun told => ⟨later, [], by rw [List.append_nil]; rfl, echo, fun _ member => by cases member⟩

theorem bind {first : ToldM σ Empty Unit} {rest : Unit → ToldM σ Empty Unit}
    (before : Silent hosted outlook seen state tree later first)
    (behind : ∀ next, Echo hosted outlook seen tree next →
      Silent hosted outlook seen state tree next (rest ())) :
    Silent hosted outlook seen state tree later (first >>= rest) := by
  intro told
  obtain ⟨between, events, ran, echo, silent⟩ := before told
  obtain ⟨next, more, ran', echo', silent'⟩ := behind between echo (told ++ events)
  refine ⟨next, events ++ more, ?_, echo', List.forall_mem_append.mpr ⟨silent, silent'⟩⟩
  rw [Stateful.bind_of_ok ran, ran', List.append_assoc]

theorem read {question : TreeM σ Empty α} {value : α} {rest : α → ToldM σ Empty Unit}
    (asked : question (state, later) = (.ok value, (state, later)))
    (behind : Silent hosted outlook seen state tree later (rest value)) :
    Silent hosted outlook seen state tree later (.quiet question >>= rest) := by
  intro told
  have read : ToldM.quiet question ((state, later), told) = (.ok value, ((state, later), told)) := by
    rw [ToldM.quiet, asked]
  rw [Stateful.bind_of_ok read]
  exact behind told

end Silent

section Silence

variable {later : Tree σ Empty}

theorem Echo.rested (echo : Echo hosted outlook seen tree later) (found : tree.node? id = some node)
    (rests : node.payload.Rests hosted outlook seen) :
    ∃ node', later.node? id = some node' ∧ node'.children = node.children ∧
      node'.payload.mode = node.payload.mode ∧
      node.payload.Rested hosted outlook seen node'.payload := by
  obtain ⟨node', found', children, mode, payload⟩ := echo.node id node found
  refine ⟨node', found', children, mode, ?_⟩
  rcases payload with same | rested
  · rw [same]
    exact rests
  · exact rested

/-- A check of a node at rest. -/
theorem narrateNode_silent (echo : Echo hosted outlook (outlook.view state) tree later)
    (found : tree.node? id = some node)
    (rests : node.payload.Rests hosted outlook (outlook.view state)) :
    Silent hosted outlook (outlook.view state) state tree later
      (narrateNode outlook.host purpose id) := by
  intro told
  obtain ⟨node', found', -, mode, rested⟩ := echo.rested found rests
  obtain ⟨bindings, events, ran, silent, rested⟩ := rested.narrate purpose
  refine ⟨Forest.modify later id fun other =>
    { other with payload := { node'.payload with bindings } }, events.map fun event => (id, event),
    ?_, echo.modify found mode rested, ?_⟩
  · simp only [narrateNode, Forest.node_eq_ok.mpr found', ran]
  · intro event member
    obtain ⟨event, listed, rfl⟩ := List.mem_map.mp member
    exact silent event listed

theorem narrateEach_silent {narrate : NodeId → ToldM σ Empty Unit}
    (each : ∀ id later, Quiet hosted outlook seen tree depth id →
      Echo hosted outlook seen tree later →
      Silent hosted outlook seen state tree later (narrate id))
    {ids : List NodeId} (quiet : ∀ id ∈ ids, Quiet hosted outlook seen tree depth id)
    (echo : Echo hosted outlook seen tree later) :
    Silent hosted outlook seen state tree later (narrateEach narrate ids) := by
  induction ids generalizing later with
  | nil => exact .pure echo
  | cons id ids ih =>
    obtain ⟨first, others⟩ := List.forall_mem_cons.mp quiet
    exact .bind (each id later first echo) fun next echo => ih others echo

/-- A visit of what is at rest. -/
theorem narrateVisit_silent (quiet : Quiet hosted outlook (outlook.view state) tree depth id)
    (echo : Echo hosted outlook (outlook.view state) tree later) :
    Silent hosted outlook (outlook.view state) state tree later
      (narrateVisit outlook.host purpose depth id) := by
  induction depth generalizing id later with
  | zero => exact .pure echo
  | succ depth ih =>
    obtain ⟨node, found, rest⟩ := quiet
    obtain ⟨node₀, found₀, children₀, mode₀, -⟩ := echo.node id node found
    refine .read (mode_of_some found₀ state) ?_
    rw [mode₀]
    rcases rest with skipped | ⟨always, rest, below⟩
    · rw [skipped]
      exact .pure echo
    · rw [always]
      refine .bind (narrateNode_silent echo found rest) fun tree₁ echo₁ => ?_
      obtain ⟨node₁, found₁, children₁, -⟩ := echo₁.node id node found
      refine .read (children_of_some found₁ state) ?_
      rw [children₁]
      refine .bind (narrateEach_silent (fun id later => ih) below echo₁) fun tree₂ echo₂ => ?_
      obtain ⟨node₂, found₂, -, mode₂, rested⟩ := echo₂.rested found rest
      intro told
      refine ⟨_, [], ?_, echo₂.modify found ?_ (rested.setMode _ node₂.payload.mode.afterVisit),
        fun _ member => by cases member⟩
      · rw [ToldM.quiet, mark_of_some found₂, List.append_nil]
      · rw [mode₂, always]
        rfl

end Silence

/-- Behind a pass that succeeds, every pass succeeds and hands nothing over. -/
theorem pass_again (leaves : purpose.Leaves outlook Trusted)
    {after : σ × Tree σ Empty}
    (fit : Every (Detector.Fit hosted outlook Trusted (outlook.view state)) tree)
    (ran : pass outlook.host purpose id (state, tree) = (.ok (), after)) (again : Purpose) :
    (∃ later, pass outlook.host again id after = (.ok (), (after.1, later))) ∧
      ∀ event ∈ tidings outlook.host again id after, event.2.calls = [] := by
  have kept := visit_fitting leaves (tree.cells.length + 1) id (state, tree) fit
  have quiet := visit_quiet leaves fit ran
  rw [show visit outlook.host purpose _ id (state, tree) = _ from ran] at kept
  obtain ⟨same, -, calmer⟩ := kept
  rw [← calmer.cells, ← same] at quiet
  have quietly : Silent hosted outlook (outlook.view after.1) after.1 after.2 after.2
    (narrateVisit outlook.host again (after.2.cells.length + 1) id) :=
      narrateVisit_silent quiet (.refl after.2)
  obtain ⟨later, events, told, -, silent⟩ := quietly []
  obtain ⟨_, plain⟩ := narrateVisit_tells outlook.host again (after.2.cells.length + 1) id after []
  have both := told.symm.trans plain
  refine ⟨⟨later, ?_⟩, ?_⟩
  · exact Prod.ext (congrArg Prod.fst both).symm (congrArg (fun ran => ran.2.1) both).symm
  · rw [tidings, told]
    exact silent

end Tree
end ChangeWatch
