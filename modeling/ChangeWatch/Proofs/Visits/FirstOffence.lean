import ChangeWatch.Proofs.FirstReports.Checks

/-!
What a verification comes to. It evaluates the expressions of the detectors that it visits, in the order
of the visits and of their declaration, and ends at the first one that offends: whose evaluation fails, or
whose value is not the remembered one. No dispatcher has a part in this, and what is remembered stays.
-/
namespace ChangeWatch

/-- What a verification holds against the result of an expression. -/
def Binding.offence? (binding : Binding κ) (result : Except EvalError Outcome) : Option CheckError :=
  let expression := binding.evaluator.source.describe
  match result with
  | .error cause => some (.evaluation expression binding.id cause)
  | .ok .noChange => none
  | .ok (.value current) =>
    if binding.previous.differsFrom current then
      some (.changedAfterChecked expression binding.id binding.previous current)
    else none

theorem Binding.judge_verify_eq (binding : Binding κ) (result : Except EvalError Outcome) :
    binding.judge .verify result =
      match binding.offence? result with
      | some cause => (.failed cause, binding)
      | none => (.same, binding) := by
  rcases result with cause | current | _
  · rfl
  · by_cases differs : binding.previous.differsFrom current <;> simp [judge, offence?, differs]
  · rfl

/-- A watched expression, with what its evaluation needs. -/
structure Look (σ κ : Type) where
  registry : Registry σ κ
  scope : Scope
  binding : Binding κ

namespace Look

/-- Expressions evaluated one after the other, without offence. -/
inductive Clear (host : Host σ) : List (Look σ κ) → σ → σ → Prop where
  | nil (state : σ) : Clear host [] state state
  | cons {look : Look σ κ} {looks : List (Look σ κ)} {result : Except EvalError Outcome}
    {evaluated : Binding κ} {state between later : σ}
    (ran : look.binding.evaluate host look.registry look.scope state =
      ((result, evaluated), between))
    (fine : look.binding.offence? result = none) (rest : Clear host looks between later) :
    Clear host (look :: looks) state later

/-- Expressions evaluated one after the other, up to the first offence. -/
def OffendsFirst (host : Host σ) (looks : List (Look σ κ)) (state : σ) (cause : CheckError)
    (later : σ) : Prop :=
  ∃ before look behind reached result evaluated, looks = before ++ look :: behind ∧
    Clear host before state reached ∧
    look.binding.evaluate host look.registry look.scope reached = ((result, evaluated), later) ∧
    look.binding.offence? result = some cause

/-- Evaluates expressions until one of them offends. -/
def survey (host : Host σ) : List (Look σ κ) → StateM σ (Option CheckError)
  | [] => return none
  | look :: looks => do
    let (result, _) ← look.binding.evaluate host look.registry look.scope
    match look.binding.offence? result with
    | some cause => return some cause
    | none => survey host looks

variable {host : Host σ} {look : Look σ κ} {looks : List (Look σ κ)} {cause : CheckError}
  {result : Except EvalError Outcome} {evaluated : Binding κ} {state between later : σ}

theorem survey_cons
    (ran : look.binding.evaluate host look.registry look.scope state =
      ((result, evaluated), between)) :
    survey host (look :: looks) state =
      match look.binding.offence? result with
      | some cause => (some cause, between)
      | none => survey host looks between := by
  simp only [survey, Bind.bind, StateT.bind, ran]
  cases look.binding.offence? result <;> rfl

theorem survey_append (others : List (Look σ κ)) :
    survey host (looks ++ others) state =
      match survey host looks state with
      | (some cause, later) => (some cause, later)
      | (none, later) => survey host others later := by
  induction looks generalizing state with
  | nil => rfl
  | cons look looks ih =>
    rcases ran : look.binding.evaluate host look.registry look.scope state with
      ⟨⟨result, evaluated⟩, between⟩
    rw [List.cons_append, survey_cons ran, survey_cons ran]
    cases look.binding.offence? result with
    | some cause => rfl
    | none => exact ih

theorem survey_eq_none : survey host looks state = (none, later) ↔ Clear host looks state later := by
  constructor
  · intro came
    induction looks generalizing state with
    | nil =>
      cases came
      exact .nil _
    | cons look looks ih =>
      rcases ran : look.binding.evaluate host look.registry look.scope state with
        ⟨⟨result, evaluated⟩, between⟩
      rw [survey_cons ran] at came
      cases offends : look.binding.offence? result with
      | some cause =>
        rw [offends] at came
        cases came
      | none =>
        rw [offends] at came
        exact .cons ran offends (ih came)
  · intro clear
    induction clear with
    | nil => rfl
    | cons ran fine _ ih => rw [survey_cons ran, fine, ih]

theorem survey_eq_some :
    survey host looks state = (some cause, later) ↔ OffendsFirst host looks state cause later := by
  constructor
  · intro came
    induction looks generalizing state with
    | nil => cases came
    | cons look looks ih =>
      rcases ran : look.binding.evaluate host look.registry look.scope state with
        ⟨⟨result, evaluated⟩, between⟩
      rw [survey_cons ran] at came
      cases offends : look.binding.offence? result with
      | some other =>
        rw [offends] at came
        cases came
        exact ⟨[], look, looks, state, result, evaluated, rfl, .nil state, ran, offends⟩
      | none =>
        rw [offends] at came
        obtain ⟨before, first, behind, reached, found, left, rfl, clear, fails⟩ := ih came
        exact ⟨look :: before, first, behind, reached, found, left, rfl, .cons ran offends clear,
          fails⟩
  · rintro ⟨before, look, behind, reached, result, evaluated, rfl, clear, ran, offends⟩
    rw [survey_append, survey_eq_none.mpr clear]
    exact (survey_cons ran).trans (by rw [offends])

/-- Evaluations leave no choice in whether something offends, and what. -/
theorem clear_iff {failure : Option CheckError} {last : σ}
    (came : survey host looks state = (failure, later)) :
    Clear host looks state last ↔ failure = none ∧ last = later := by
  rw [← survey_eq_none, came, Prod.mk.injEq, eq_comm (a := later)]

theorem offendsFirst_iff {failure : Option CheckError} {last : σ}
    (came : survey host looks state = (failure, later)) :
    OffendsFirst host looks state cause last ↔ failure = some cause ∧ last = later := by
  rw [← survey_eq_some, came, Prod.mk.injEq, eq_comm (a := later)]

end Look

namespace Detector

/-- What is remembered of the expressions of a detector. -/
def remembered (detector : Detector σ κ) : List Cached := detector.bindings.map Binding.previous

/-- The expressions of a detector, if it has a context. -/
def looks (detector : Detector σ κ) : List (Look σ κ) :=
  match detector.scope with
  | none => []
  | some scope =>
    detector.bindings.map fun binding => { registry := detector.registry, scope, binding }

variable {host : Host σ} {detector after : Detector σ κ} {scope : Scope} {state later : σ}
  {result : Except CheckError Nat} {events : List Event}

def failure? : Except CheckError Nat → Option CheckError
  | .ok _ => none
  | .error cause => some cause

/-- A verification that is told evaluates expressions up to the first offence, and calls nobody. -/
structure Surveyed (host : Host σ) (looks : List (Look σ κ)) (before : List Cached) (state : σ)
    (result : Except CheckError Nat) (after : List Cached) (events : List Event) (later : σ) :
    Prop where
  survey : Look.survey host looks state = (failure? result, later)
  remembers : after = before
  calls : ∀ event ∈ events, event.calls = []

theorem narrateFrom_surveyed (host : Host σ) (detector : Detector σ κ) (scope : Scope)
    (count position : Nat) (bindings : List (Binding κ)) (state : σ) :
    let told := detector.narrateFrom host scope .verify {} count position bindings state
    Surveyed host (bindings.map fun binding => { registry := detector.registry, scope, binding })
      (bindings.map Binding.previous) state told.1.1.1 (told.1.1.2.map Binding.previous) told.1.2
      told.2 := by
  induction bindings generalizing count position state with
  | nil => exact ⟨rfl, rfl, fun _ member => by cases member⟩
  | cons binding bindings ih =>
    rcases narrateFrom_cons host detector scope .verify {} count position binding bindings state with
      ⟨error, between, refused, -⟩ | ⟨kept, between, result, evaluated, later, flushed, ran, told⟩
    · cases refused
    · cases flushed
      have same : evaluated.offence? result = binding.offence? result := by
        cases ran
        rfl
      have kept : evaluated.previous = binding.previous := by
        cases ran
        rfl
      have nothing : Pending.handFor {} binding.group = ([], {}) := rfl
      rw [told, nothing, Binding.judge_verify_eq, same]
      have first := @Look.survey_cons _ _ host { registry := detector.registry, scope, binding }
        (bindings.map fun binding => { registry := detector.registry, scope, binding }) _ _ _ _ ran
      cases offends : binding.offence? result with
      | some cause =>
        refine ⟨?_, congrArg (· :: _) kept, List.forall_mem_singleton.mpr rfl⟩
        rw [List.map_cons, first, offends]
        rfl
      | none =>
        obtain ⟨survey, remembers, calls⟩ := ih count (position + 1) later
        refine ⟨?_, List.cons_eq_cons.mpr ⟨kept, remembers⟩, List.forall_mem_cons.mpr ⟨rfl, calls⟩⟩
        rw [List.map_cons, first, offends, ← survey]

theorem narrate_surveyed
    (ran : detector.narrate host .verify state = (((result, after), events), later)) :
    Surveyed host detector.looks detector.remembered state result after.remembered events later := by
  cases given : detector.scope with
  | none =>
    rw [narrate_of_none host given] at ran
    cases ran
    refine ⟨?_, rfl, fun _ member => by cases member⟩
    rw [looks, given]
    rfl
  | some scope =>
    have surveyed := narrateFrom_surveyed host detector scope 0 0 detector.bindings state
    rw [narrate_of_scope host given] at ran
    cases ran
    rw [looks, given]
    exact surveyed

end Detector

namespace Tree

open Forest (Linked)

/-- What is remembered of the expressions of a node. -/
def remembered? (tree : Tree σ κ) (id : NodeId) : Option (List Cached) :=
  (tree.node? id).map fun node => node.payload.remembered

/-- The expressions of nodes, in order. -/
def looks (tree : Tree σ κ) (ids : List NodeId) : List (Look σ κ) :=
  ids.flatMap fun id => ((tree.node? id).map fun node => node.payload.looks).getD []

variable {host : Host σ} {tree : Tree σ κ} {id : NodeId} {ids : List NodeId}

theorem looks_append (others : List NodeId) :
    tree.looks (ids ++ others) = tree.looks ids ++ tree.looks others :=
  List.flatMap_append

theorem looks_cons {node : Node (Detector σ κ)} (found : tree.node? id = some node) :
    tree.looks (id :: ids) = node.payload.looks ++ tree.looks ids := by
  rw [looks, List.flatMap_cons, found]
  rfl

/-- A verification of nodes that gets through meets no offence. -/
theorem Inspects.surveyed {course : List (Inspection σ κ)} {state later : σ}
    (inspects : Inspects host .verify tree state course later) :
    Look.survey host (tree.looks (course.map Inspection.id)) state = (none, later) ∧
      ∀ inspection ∈ course, (∀ event ∈ inspection.events, event.calls = []) ∧
        tree.remembered? inspection.id = some inspection.detector.remembered := by
  induction inspects with
  | nil => exact ⟨rfl, fun _ member => by cases member⟩
  | cons found ran _ ih =>
    obtain ⟨survey, remembers, calls⟩ := Detector.narrate_surveyed ran
    refine ⟨?_, List.forall_mem_cons.mpr ⟨⟨calls, ?_⟩, ih.2⟩⟩
    · rw [List.map_cons, looks_cons found, Look.survey_append, survey]
      exact ih.1
    · rw [remembered?, found, Option.map_some, remembers]

/-- What is remembered of a node stays if the check of the node leaves it. -/
theorem remembered_left {course : List (Inspection σ κ)} {next : Tree σ κ}
    (each : ∀ inspection ∈ course, (∀ event ∈ inspection.events, event.calls = []) ∧
      tree.remembered? inspection.id = some inspection.detector.remembered)
    (left : next.node? id = tree.node? id ∨ ∃ inspection ∈ course, inspection.id = id ∧
      inspection.Left tree next) :
    next.remembered? id = tree.remembered? id := by
  rcases left with same | ⟨inspection, member, rfl, node, mode, -, -, left⟩
  · rw [remembered?, same, remembered?]
  · rw [(each inspection member).2, remembered?, left]
    rfl

/-- A verification evaluates the expressions of the nodes that it visits up to the first offence. It calls
no dispatcher and leaves alone what is remembered. -/
theorem verify_surveyed (host : Host σ) (linked : Linked tree [])
    (present : Forest.contains tree id = true) (state : σ) :
    ∃ visited, Walk tree [id] visited ∧ ∀ result later next,
      checkNoChanges host id (state, tree) = (result, (later, next)) →
        (∃ failure, Look.survey host (tree.looks visited) state = (failure, later) ∧
          result = match failure with
            | some cause => .error (.check cause)
            | none => .ok ()) ∧
        (∀ other, next.remembered? other = tree.remembered? other) ∧
        ∀ tiding ∈ tidings host .verify id (state, tree), tiding.2.calls = [] := by
  obtain ⟨visited, walk, -, ends⟩ := exists_pass_ends host .verify linked present state
  refine ⟨visited, walk, fun result later next ran => ?_⟩
  rcases ends result (later, next) ran with ⟨course, later', next', ended, passed⟩ |
    ⟨course, failed, cause, events, later', next', ended, stopped⟩
  · simp only [Prod.mk.injEq, List.nil_append] at ended
    obtain ⟨rfl, ⟨rfl, rfl⟩, told⟩ := ended
    obtain ⟨survey, each⟩ := passed.inspects.surveyed
    rw [passed.order] at survey
    refine ⟨⟨none, survey, rfl⟩, fun other => remembered_left each (passed.left other), ?_⟩
    · rintro ⟨other, event⟩ member
      rw [told] at member
      obtain ⟨inspection, among, -, happened⟩ := mem_courseTidings.mp member
      exact (each inspection among).1 event happened
  · simp only [Prod.mk.injEq, List.nil_append] at ended
    obtain ⟨rfl, ⟨rfl, rfl⟩, told⟩ := ended
    obtain ⟨rest, order⟩ := stopped.order
    obtain ⟨node, detector, reached, found, inspects, fails, left⟩ := stopped.fails
    obtain ⟨survey, each⟩ := inspects.surveyed
    obtain ⟨surveyFails, remembers, calls⟩ := Detector.narrate_surveyed fails
    refine ⟨⟨some cause, ?_, rfl⟩, fun other => ?_, ?_⟩
    · rw [order, looks_append, looks_cons found, Look.survey_append, survey]
      exact (Look.survey_append _).trans (by rw [surveyFails]; rfl)
    · by_cases same : other = failed
      · subst same
        rw [remembered?, left, remembered?, found]
        exact congrArg some remembers
      · exact remembered_left each (stopped.left same)
    · rintro ⟨other, event⟩ member
      rw [told] at member
      rcases List.mem_append.mp member with member | member
      · obtain ⟨inspection, among, -, happened⟩ := mem_courseTidings.mp member
        exact (each inspection among).1 event happened
      · obtain ⟨event, happened, same⟩ := List.mem_map.mp member
        cases same
        exact calls event happened

/-- Whatever has been done with a tree, a verification evaluates the expressions of the detectors that it
visits, as long as they have a context, up to the first offence. If there is none it succeeds, and
otherwise it fails with the first one; the application is as the evaluations leave it. No dispatcher is
called, and what is remembered of any expression of the tree stays. -/
theorem verify_finds_first (host : Host σ) (start : σ) (operations : List (Operation σ κ))
    {id : NodeId} (live : Forest.contains (after host operations (start, {})).2 id = true) :
    let world := after host operations (start, {})
    ∃ visited, Walk world.2 [id] visited ∧ (∀ other, other ∈ visited ↔ Active world.2 id other) ∧
      ∀ result later next, checkNoChanges host id world = (result, (later, next)) →
        (result = .ok () ↔ ∃ last, Look.Clear host (world.2.looks visited) world.1 last) ∧
        (∀ error, result = .error error ↔ ∃ cause last, error = .check cause ∧
          Look.OffendsFirst host (world.2.looks visited) world.1 cause last) ∧
        (∀ last, (Look.Clear host (world.2.looks visited) world.1 last ∨
          ∃ cause, Look.OffendsFirst host (world.2.looks visited) world.1 cause last) ↔
            last = later) ∧
        (∀ other, next.remembered? other = world.2.remembered? other) ∧
        (∀ tiding ∈ tidings host .verify id world, tiding.2.calls = []) ∧
        calls host .verify id world = [] := by
  intro world
  have linked : Linked world.2 [] := after_linked host start operations
  obtain ⟨visited, walk, ends⟩ := verify_surveyed host linked live world.1
  refine ⟨visited, walk, fun other => ?_, fun result later next ran => ?_⟩
  · rw [walk.mem_iff]
    simp only [List.mem_singleton, exists_eq_left]
  · obtain ⟨⟨failure, survey, same⟩, remembers, silent⟩ := ends result later next ran
    have uncalled : calls host .verify id world = [] :=
      (calls_eq host .verify id world).trans (Tidings.calls_eq_nil silent)
    simp only [Look.clear_iff survey, Look.offendsFirst_iff survey]
    refine ⟨?_, fun error => ?_, fun last => ?_, remembers, silent, uncalled⟩
    all_goals cases failure <;> simp [same, eq_comm]

end Tree
end ChangeWatch

namespace ChangeWatch.Shelf

/-- A verification of the family, before any detection, fails with the first of the expressions of its first
child and of the child of that. -/
theorem verify_finds_first_family :
    let world := Tree.after application family (1, {})
    Forest.contains world.2 (nth 0) = true ∧ ∃ cause last,
      (Tree.checkNoChanges application (nth 0) world).1 = .error (.check cause) ∧
      Look.OffendsFirst application (world.2.looks [nth 0, nth 1, nth 3]) world.1 cause last ∧
      Tree.calls application .verify (nth 0) world = [] := by
  intro world
  have live : Forest.contains world.2 (nth 0) = true := by decide +kernel
  have fails : (Tree.checkNoChanges application (nth 0) world).1.isOk = false := by decide +kernel
  obtain ⟨visited, walk, -, ends⟩ := Tree.verify_finds_first application 1 family live
  have order : Tree.Walk world.2 [nth 0]
      (nth 0 :: ((nth 1 :: ((nth 3 :: ([] ++ [])) ++ [])) ++ [])) :=
    .enter rfl rfl (.enter rfl rfl (.enter rfl rfl .done .done) (.skip rfl rfl .done)) .done
  rcases ran : Tree.checkNoChanges application (nth 0) world with ⟨result, later, next⟩
  rw [ran] at fails
  cases result with
  | ok => cases fails
  | error error =>
    obtain ⟨-, fails, -, -, -, uncalled⟩ := ends _ later next ran
    obtain ⟨cause, last, rfl, first⟩ := (fails error).mp rfl
    exact ⟨live, cause, last, rfl, order.unique walk ▸ first, uncalled⟩

end ChangeWatch.Shelf
