import ChangeWatch.Proofs.Forest.Reached
import ChangeWatch.Proofs.Rest.Histories
import ChangeWatch.Proofs.Visits.Course

/-!
Passes over trees with any history. A pass ends by itself, without the bound on its depth, and a pass
that gets through has checked the active nodes, each one once and in their order, and no other node.
-/
namespace ChangeWatch.Tree

open Forest (Deep Linked)
open Stateful (Along)

variable {host : Host σ} {purpose : Purpose} {tree : Tree σ κ} {id : NodeId} {depth : Nat}

theorem visit_alike (host : Host σ) (purpose : Purpose) (depth : Nat) (id : NodeId) :
    Along Alike (visit (κ := κ) host purpose depth id) :=
  visit_along (checkNode_alike host purpose) (fun _ => mark_along fun _ => onDetector_alike _ _)
    depth id

theorem Alike.deep {world next : σ × Tree σ κ} (alike : Alike world next)
    (deep : Deep world.2 depth id) : Deep next.2 depth id :=
  deep.of_children alike.children

/-- Visits that agree on subtrees of bounded depth agree one after the other. -/
theorem visitEach_congr {first second : NodeId → TreeM σ κ Unit}
    (alike : ∀ id, Along Alike (first id))
    (same : ∀ id world, Deep world.2 depth id → first id world = second id world)
    {ids : List NodeId} {world : σ × Tree σ κ} (deep : ∀ id ∈ ids, Deep world.2 depth id) :
    visitEach first ids world = visitEach second ids world := by
  induction ids generalizing world with
  | nil => rfl
  | cons id ids ih =>
    obtain ⟨here, others⟩ := List.forall_mem_cons.mp deep
    have kept := alike id world
    rw [visitEach, visitEach, Stateful.bind_apply, Stateful.bind_apply, ← same id world here]
    rcases ran : first id world with ⟨result, next⟩
    rw [ran] at kept
    cases result with
    | error cause => rfl
    | ok _ => exact ih fun id member => kept.deep (others id member)

theorem children_ok {world next : σ × Tree σ κ} {listed : List NodeId}
    (ran : children id world = (.ok listed, next)) :
    next = world ∧ listed = Forest.childrenOf world.2 id := by
  refine ⟨(congrArg Prod.snd ran).symm.trans (children_world id world), ?_⟩
  simp only [children, TreeM.restructure] at ran
  cases found : Forest.node? world.2 id with
  | none =>
    simp only [Forest.node, found] at ran
    cases ran
  | some node =>
    rw [Forest.node_eq_ok.mpr found] at ran
    cases ran
    exact (Forest.childrenOf_of_some found).symm

/-- A visit does not come to the bound on its depth where no way down is that long. -/
theorem visit_succ {world : σ × Tree σ κ} (deep : Deep world.2 depth id) :
    visit host purpose (depth + 1) id world = visit host purpose depth id world := by
  induction depth generalizing id world with
  | zero => exact deep.elim
  | succ depth ih =>
    rw [visit, visit]
    refine Stateful.bind_congr fun current asking asked => ?_
    obtain rfl : asking = world := (congrArg Prod.snd asked).symm.trans (mode_world id world)
    split
    · rfl
    · refine Stateful.bind_congr fun _ checked ran => ?_
      have kept := checkNode_alike host purpose id asking
      rw [ran] at kept
      refine Stateful.bind_congr fun listed asking' asked' => ?_
      obtain ⟨rfl, rfl⟩ := children_ok asked'
      have lower : ∀ child ∈ Forest.childrenOf asking'.2 id, Deep asking'.2 depth child :=
        kept.deep deep
      have below := visitEach_congr (visit_alike host purpose (depth + 1)) (fun _ _ => ih) lower
      rw [Stateful.bind_apply, Stateful.bind_apply, below]

/-- A pass ends by itself. -/
theorem visit_eq_pass {world : σ × Tree σ κ} (linked : Linked world.2 [])
    (present : Forest.contains world.2 id = true) (enough : world.2.cells.length ≤ depth) :
    visit host purpose depth id world = pass host purpose id world := by
  have settles {depth : Nat} (enough : world.2.cells.length ≤ depth) :
      visit host purpose depth id world = visit host purpose world.2.cells.length id world := by
    induction enough with
    | refl => rfl
    | step enough ih => exact (visit_succ (linked.deep present enough)).trans ih
  exact (settles enough).trans (settles (Nat.le_succ _)).symm

/-- Every pass from a node of a forest has an order, and ends in one of two ways. -/
theorem exists_pass_ends (host : Host σ) (purpose : Purpose) (linked : Linked tree [])
    (present : Forest.contains tree id = true) (state : σ) :
    ∃ visited, Walk tree [id] visited ∧ visited.Nodup ∧ ∀ result world,
      pass host purpose id (state, tree) = (result, world) →
        Ends host purpose tree visited state tree []
          (result, world, tidings host purpose id (state, tree)) := by
  have deep : ∀ top ∈ [id], Deep tree (tree.cells.length + 1) top :=
    List.forall_mem_singleton.mpr (linked.deep present (Nat.le_succ _))
  obtain ⟨visited, walk⟩ := exists_walk linked (List.forall_mem_singleton.mpr present) deep
  have apart := List.pairwise_singleton (Forest.Apart tree) id
  refine ⟨visited, walk, walk.nodup linked apart, fun result world ran => ?_⟩
  have ends : Ends host purpose tree visited state tree [] (narrateEach (narrateVisit host purpose _)
      [id] ((state, tree), [])) :=
    narrateEach_ends linked walk deep apart (fun _ _ _ _ => rfl) state []
  obtain ⟨later, told⟩ :=
    narrateVisit_tells host purpose (tree.cells.length + 1) id (state, tree) []
  rw [show visit host purpose _ id (state, tree) = _ from ran] at told
  have happened : tidings host purpose id (state, tree) = later :=
    congrArg (fun ended => ended.2.2) told
  have alone : narrateEach (narrateVisit host purpose (tree.cells.length + 1)) [id]
      ((state, tree), []) = (result, (world, later)) := by
    rw [narrateEach, Stateful.bind_apply, told]
    cases result <;> rfl
  rw [happened, ← alone]
  exact ends

/-- A check works on the expressions of a detector, and on none without a context. -/
theorem Inspects.detector {course : List (Inspection σ κ)} {state later : σ}
    (inspects : Inspects host purpose tree state course later) :
    ∀ inspection ∈ course, ∀ node, tree.node? inspection.id = some node →
      inspection.detector = { node.payload with bindings := inspection.detector.bindings } ∧
      (node.payload.isHydrated = false →
        inspection.detector = node.payload ∧ inspection.events = []) := by
  induction inspects with
  | nil => exact fun _ member => by cases member
  | @cons _ node _ _ _ _ _ _ _ found ran _ ih =>
    refine List.forall_mem_cons.mpr ⟨fun node' found' => ?_, ih⟩
    obtain rfl : node = node' := Option.some.inj (found.symm.trans found')
    cases given : node.payload.scope with
    | none =>
      rw [Detector.narrate_of_none host given] at ran
      cases ran
      exact ⟨rfl, fun _ => ⟨rfl, rfl⟩⟩
    | some scope =>
      rw [Detector.narrate_of_scope host given] at ran
      generalize node.payload.narrateFrom host scope purpose {} 0 0 node.payload.bindings _ = told
        at ran
      obtain ⟨⟨⟨result, bindings⟩, happened⟩, after⟩ := told
      cases ran
      refine ⟨rfl, fun bare => ?_⟩
      rw [Detector.isHydrated, given] at bare
      cases bare

theorem Inspects.mode {course : List (Inspection σ κ)} {state later : σ}
    (inspects : Inspects host purpose tree state course later) {inspection : Inspection σ κ}
    (member : inspection ∈ course) {node : Node (Detector σ κ)}
    (found : tree.node? inspection.id = some node) :
    inspection.detector.mode = node.payload.mode := by
  have modes := congrArg Detector.mode (inspects.detector inspection member node found).1
  exact modes

/-- A visited node behind its check, with its mode, or with the mode that the end of a visit sets. -/
def Inspection.Left (tree next : Tree σ κ) (inspection : Inspection σ κ) : Prop :=
  ∃ node mode, tree.node? inspection.id = some node ∧
    (mode = node.payload.mode ∨ mode = node.payload.mode.afterVisit) ∧
    next.node? inspection.id = some { node with payload := { inspection.detector with mode } }

/-- A node behind visits that get through is as it was, or as its check leaves it. -/
theorem Passed.left {course : List (Inspection σ κ)} {visited : List NodeId} {state later : σ}
    {next : Tree σ κ} (passed : Passed host purpose tree visited course state tree later next)
    (id : NodeId) :
    next.node? id = tree.node? id ∨ ∃ inspection ∈ course, inspection.id = id ∧
      inspection.Left tree next := by
  by_cases among : id ∈ visited
  · obtain ⟨inspection, member, rfl⟩ := List.mem_map.mp (passed.order ▸ among)
    obtain ⟨node, found, left⟩ := passed.marked inspection member
    have mode := congrArg Mode.afterVisit (passed.inspects.mode member found)
    exact .inr ⟨inspection, member, rfl, node, _, found, .inr mode, left⟩
  · exact .inl (passed.others id among)

/-- A node behind visits that a failing check stops, unless it is the failing one. -/
theorem Stopped.left {course : List (Inspection σ κ)} {visited : List NodeId} {failed : NodeId}
    {cause : CheckError} {events : List Event} {state later : σ} {next : Tree σ κ}
    (stopped : Stopped host purpose tree visited course failed cause events state tree later next)
    (apart : id ≠ failed) :
    next.node? id = tree.node? id ∨ ∃ inspection ∈ course, inspection.id = id ∧
      inspection.Left tree next := by
  obtain ⟨_, _, _, _, inspects, _⟩ := stopped.fails
  by_cases among : id ∈ course.map Inspection.id
  · obtain ⟨inspection, member, rfl⟩ := List.mem_map.mp among
    refine .inr ⟨inspection, member, rfl, ?_⟩
    by_cases below : Forest.Below tree failed inspection.id
    · obtain ⟨node, found, left⟩ := stopped.above inspection member below
      exact ⟨node, _, found, .inl (inspects.mode member found), left⟩
    · obtain ⟨node, found, left⟩ := stopped.marked inspection member below
      have mode := congrArg Mode.afterVisit (inspects.mode member found)
      exact ⟨node, _, found, .inr mode, left⟩
  · exact .inl (stopped.others id among apart)

/-- Of all modes, those of nodes that were to be checked once and whose visits are over have changed:
these nodes have been checked. -/
def Expends (passed : NodeId → Prop) (tree next : Tree σ κ) : Prop :=
  ∀ id node, tree.node? id = some node → ∃ left, next.node? id = some left ∧
    (passed id ∧ node.payload.mode = .checkOnce → left.payload.mode = .checked) ∧
    (¬ (passed id ∧ node.payload.mode = .checkOnce) → left.payload.mode = node.payload.mode)

theorem Expends.of_afterVisit {passed : NodeId → Prop} {next : Tree σ κ}
    (ended : ∀ id node, passed id → tree.node? id = some node → ∃ left, next.node? id = some left ∧
      left.payload.mode = node.payload.mode.afterVisit)
    (others : ∀ id node, ¬ passed id → tree.node? id = some node → ∃ left, next.node? id = some left ∧
      left.payload.mode = node.payload.mode) : Expends passed tree next := by
  intro id node found
  by_cases visited : passed id
  · obtain ⟨left, found', mode⟩ := ended id node visited found
    refine ⟨left, found', fun ⟨_, once⟩ => ?_, fun other => mode.trans ?_⟩
    · rw [mode, once]
      rfl
    · have always : node.payload.mode ≠ .checkOnce := fun once => other ⟨visited, once⟩
      generalize node.payload.mode = before at always
      cases before with
      | checkOnce => exact absurd rfl always
      | _ => rfl
  · obtain ⟨left, found', mode⟩ := others id node visited found
    exact ⟨left, found', fun ⟨inside, _⟩ => absurd inside visited, fun _ => mode⟩

/-- Whatever has been done with a tree, a pass over it ends by itself. If it gets through, it has checked
the active nodes in their order, each one once; a node without a context evaluates nothing. Visited
nodes keep all but what the check and the end of their visit change, and others keep everything. Those
to be checked once have been checked then, and all other modes are as before. -/
theorem pass_visits_active (host : Host σ) (start : σ) (operations : List (Operation σ κ))
    (purpose : Purpose) {id : NodeId}
    (live : Forest.contains (after host operations (start, {})).2 id = true) :
    let world := after host operations (start, {})
    (∀ depth, world.2.cells.length ≤ depth →
      visit host purpose depth id world = pass host purpose id world) ∧
    ∃ visited, Walk world.2 [id] visited ∧ visited.Nodup ∧
      (∀ other, other ∈ visited ↔ Active world.2 id other) ∧
      ∀ later next, pass host purpose id world = (.ok (), (later, next)) →
        ∃ course : List (Inspection σ κ), course.map Inspection.id = visited ∧
          Inspects host purpose world.2 world.1 course later ∧
          tidings host purpose id world = courseTidings course ∧
          (∀ inspection ∈ course, ∃ node, world.2.node? inspection.id = some node ∧
            (node.payload.isHydrated = false →
              inspection.detector = node.payload ∧ inspection.events = []) ∧
            next.node? inspection.id = some { node with
              payload := { inspection.detector with mode := node.payload.mode.afterVisit } }) ∧
          (∀ other ∉ visited, next.node? other = world.2.node? other) ∧
          Expends (· ∈ visited) world.2 next := by
  intro world
  have linked : Linked world.2 [] := after_linked host start operations
  obtain ⟨visited, walk, distinct, ends⟩ := exists_pass_ends host purpose linked live world.1
  refine ⟨fun depth => visit_eq_pass linked live, visited, walk, distinct, fun other => ?_, ?_⟩
  · rw [walk.mem_iff]
    simp only [List.mem_singleton, exists_eq_left]
  · intro later next ran
    rcases ends _ _ ran with ⟨course, later', next', ended, passed⟩ | ⟨_, _, _, _, _, _, ended, -⟩
    · simp only [Prod.mk.injEq, List.nil_append] at ended
      obtain ⟨-, ⟨rfl, rfl⟩, told⟩ := ended
      have left : ∀ inspection ∈ course, ∃ node, world.2.node? inspection.id = some node ∧
          (node.payload.isHydrated = false →
            inspection.detector = node.payload ∧ inspection.events = []) ∧
          next.node? inspection.id = some { node with
            payload := { inspection.detector with mode := node.payload.mode.afterVisit } } := by
        intro inspection member
        obtain ⟨node, found, left⟩ := passed.marked inspection member
        obtain ⟨-, bare⟩ := passed.inspects.detector inspection member node found
        refine ⟨node, found, bare, left.trans ?_⟩
        rw [Inspection.marked, passed.inspects.mode member found]
      refine ⟨course, passed.order, passed.inspects, told, left, passed.others,
        .of_afterVisit (fun id node among found => ?_) fun id node apart found =>
          ⟨node, (passed.others id apart).trans found, rfl⟩⟩
      obtain ⟨inspection, member, rfl⟩ := List.mem_map.mp (passed.order ▸ among)
      obtain ⟨node', found', -, marked⟩ := left inspection member
      cases found.symm.trans found'
      exact ⟨_, marked, rfl⟩
    · cases ended

end ChangeWatch.Tree

namespace ChangeWatch.Shelf

/-- The detectors in the order in which they are made. -/
def nth (index : Nat) : NodeId := { index, generation := 0 }

def insertion (index : Nat) : Operation Nat Empty :=
  .insert { name := "a", registry, strategy := .compiled } (.detector index)
    (fun _ _ => pure (.ok ())) [{ source, binding := ⟨"a"⟩, group := ⟨"a"⟩ }] []

/-- A root with two children, one to be checked once, the other one detached, each with a child. The
root has no context. -/
def family : List (Operation Nat Empty) :=
  (List.range 5).map insertion ++
    [.addChild (nth 0) (nth 1), .addChild (nth 0) (nth 2), .addChild (nth 1) (nth 3),
      .addChild (nth 2) (nth 4), .setMode (nth 1) .checkOnce, .setMode (nth 2) .detached] ++
    [1, 2, 3, 4].map fun index => .hydrate (nth index) scope.context scope.locals

/-- A pass over the family checks the root, its first child and the child of that. The first child was to
be checked once. -/
theorem pass_visits_active_family :
    Forest.contains (Tree.after application family (1, {})).2 (nth 0) = true ∧
      ∃ (course : List (Tree.Inspection Nat Empty)) (later : Nat) (next : Tree Nat Empty),
        Tree.detectChanges application (nth 0) (Tree.after application family (1, {})) =
          (.ok (), (later, next)) ∧
        course.map Tree.Inspection.id = [nth 0, nth 1, nth 3] ∧
        ∃ node left, (Tree.after application family (1, {})).2.node? (nth 1) = some node ∧
          node.payload.mode = .checkOnce ∧ next.node? (nth 1) = some left ∧
          left.payload.mode = .checked := by
  have live : Forest.contains (Tree.after application family (1, {})).2 (nth 0) = true := by
    decide +kernel
  have once : ((Tree.after application family (1, {})).2.node? (nth 1)).map
      (fun node => node.payload.mode) = some .checkOnce := by decide +kernel
  obtain ⟨node, found, mode⟩ := Option.map_eq_some_iff.mp once
  obtain ⟨-, visited, walk, -, -, passes⟩ :=
    Tree.pass_visits_active application 1 family .detect live
  have fine : (Tree.detectChanges application (nth 0)
      (Tree.after application family (1, {}))).1.isOk = true := by decide +kernel
  rcases ran : Tree.detectChanges application (nth 0) (Tree.after application family (1, {}))
    with ⟨result, later, next⟩
  rw [ran] at fine
  cases result with
  | error cause => cases fine
  | ok =>
    obtain ⟨course, order, -, -, -, -, marks⟩ := passes later next ran
    have all : Tree.Walk (Tree.after application family (1, {})).2 [nth 0]
        (nth 0 :: ((nth 1 :: ((nth 3 :: ([] ++ [])) ++ [])) ++ [])) :=
      .enter rfl rfl (.enter rfl rfl (.enter rfl rfl .done .done) (.skip rfl rfl .done)) .done
    have listed : visited = [nth 0, nth 1, nth 3] := walk.unique all
    obtain ⟨left, found', checked, -⟩ := marks (nth 1) node found
    exact ⟨live, course, later, next, rfl, order.trans listed, node, left, found, mode, found',
      checked ⟨listed ▸ by simp, mode⟩⟩

end ChangeWatch.Shelf
