import ChangeWatch.Proofs.Interruptions
import ChangeWatch.Proofs.Visits.Passes

/-!
Passes that fail. A pass fails in the check of one node. What was checked before is as behind a pass that
gets through, apart from the modes of the nodes above the failing one, whose visits are not over. What
would have been checked later is as it was, and another pass comes to the same node again, unless it fails
before.
-/
namespace ChangeWatch

open Forest (Linked Within)
open Stateful (Along)

/-- A check that breaks off. It has passed the expressions in front of some point, with what it makes of
them in front of any others, and leaves the expressions behind that point as they are. -/
def Detector.BreaksOff (host : Host σ) (purpose : Purpose) (detector : Detector σ κ) (state : σ)
    (cause : CheckError) (afters : List (Binding κ)) (later : σ) : Prop :=
  ∃ scope done passed rest left pending between, detector.scope = some scope ∧
    detector.bindings = done ++ rest ∧ afters = passed ++ left ∧ passed.length = done.length ∧
    detector.Passes host scope purpose {} state done passed pending between ∧
    detector.Breaks host scope purpose pending between cause later rest left ∧
    ∀ others, ∃ tail, (check host purpose { detector with bindings := done ++ others }
      state).1.2.bindings = passed ++ tail

theorem Detector.check_breaksOff {host : Host σ} {purpose : Purpose} {detector after : Detector σ κ}
    {state later : σ} {cause : CheckError}
    (ran : detector.check host purpose state = ((.error cause, after), later)) :
    ∃ bindings, after = { detector with bindings } ∧
      detector.BreaksOff host purpose state cause bindings later := by
  obtain ⟨given, hydrated⟩ : ∃ given, detector.scope = given := ⟨_, rfl⟩
  cases given with
  | none =>
    rw [check_of_none host hydrated] at ran
    cases ran
  | some scope =>
    rw [check_of_scope host hydrated] at ran
    rcases checked : detector.checkFrom host scope purpose {} 0 detector.bindings state with
      ⟨⟨result, bindings⟩, last⟩
    rw [checked] at ran
    cases ran
    obtain ⟨done, passed, rest, left, pending, between, found, leaves, passes, breaks⟩ :=
      checkFrom_breaks checked
    exact ⟨bindings, rfl, scope, done, passed, rest, left, pending, between, hydrated, found,
      leaves, passes.length_eq, passes, breaks, passes.check hydrated⟩

/-- An operation that leaves all links and modes alone. -/
def Operation.Sparing : Operation σ κ → Prop
  | mutate _ | hydrate _ _ _ | dehydrate _ => True
  | _ => False

namespace Tree

/-- Worlds whose trees have the same links and the same modes. -/
structure Likewise (world next : σ × Tree σ κ) : Prop extends Forest.Alike world.2 next.2 where
  awake : ∀ id, Awake world.2 id → Awake next.2 id

instance : Std.Refl (Likewise (σ := σ) (κ := κ)) where
  refl world := { Std.Refl.refl (r := Tree.Alike) world with awake := fun _ awake => awake }

instance : Trans (Likewise (σ := σ) (κ := κ)) Likewise Likewise where
  trans first second :=
    { Trans.trans (r := Tree.Alike) (s := Tree.Alike) first.toAlike second.toAlike with
      awake := fun id awake => second.awake id (first.awake id awake) }

theorem onDetector_likewise (id : NodeId) {action : Detector σ κ → StateM σ (α × Detector σ κ)}
    (keeps : ∀ detector state, (action detector state).1.2.mode = detector.mode) :
    Along Likewise (TreeM.onDetector id action) := by
  intro world
  refine { onDetector_alike id action world with awake := ?_ }
  obtain ⟨state, tree⟩ := world
  rintro other ⟨node, found, awake⟩
  cases held : tree.node? id with
  | none =>
    rw [TreeM.onDetector_of_none held]
    exact ⟨node, found, awake⟩
  | some here =>
    rw [TreeM.onDetector_of_some held]
    by_cases same : other = id
    · subst same
      cases held.symm.trans found
      exact ⟨_, Forest.node?_modify_of_some held _, (keeps node.payload state).symm ▸ awake⟩
    · refine ⟨node, ?_, awake⟩
      rw [Forest.node?_modify, if_neg same, found]

/-- Sparing operations keep all links and modes. -/
theorem after_likewise (host : Host σ) {operations : List (Operation σ κ)}
    (sparing : ∀ operation ∈ operations, operation.Sparing) (world : σ × Tree σ κ) :
    Likewise world (after host operations world) := by
  refine after_induction (P := Likewise world) (Std.Refl.refl world) fun operation among next kept => ?_
  have sparing := sparing operation among
  have step : Likewise next (operation.run host next).2 := by
    cases operation with
    | mutate change => exact ⟨⟨rfl, rfl, rfl, fun _ => Iff.rfl⟩, fun _ awake => awake⟩
    | hydrate id context locals => exact onDetector_likewise id (fun _ _ => rfl) next
    | dehydrate id => exact onDetector_likewise id (fun _ _ => rfl) next
    | _ => exact sparing.elim
  exact Trans.trans kept step

variable {host : Host σ} {purpose : Purpose} {tree next : Tree σ κ} {id failed : NodeId}

/-- A visit that fails leaves the failing node, and those above it, awake. -/
theorem Stopped.awake {visited : List NodeId} {course : List (Inspection σ κ)} {cause : CheckError}
    {events : List Event} {state later : σ} (stopped : Stopped host purpose tree visited course failed
      cause events state tree later next) {other : NodeId} (within : Within tree failed other)
    (awake : Awake tree other) : Awake next other := by
  obtain ⟨node, found, awake⟩ := awake
  obtain ⟨node', detector, reached, found', inspects, ran, left⟩ := stopped.fails
  by_cases same : other = failed
  · subst same
    cases found.symm.trans found'
    have plain := node.payload.narrate_erases host purpose reached
    rw [ran] at plain
    obtain ⟨bindings, rfl, -⟩ := Detector.check_breaksOff plain
    exact ⟨_, left, awake⟩
  · by_cases checked : other ∈ course.map Inspection.id
    · obtain ⟨inspection, member, rfl⟩ := List.mem_map.mp checked
      have below := (Forest.within_iff.mp within).resolve_left (Ne.symm same)
      obtain ⟨node', found', left⟩ := stopped.above inspection member below
      cases found.symm.trans found'
      exact ⟨_, left, (inspects.mode member found).symm ▸ awake⟩
    · exact ⟨node, (stopped.others other checked same).trans found, awake⟩

/-- A node stays active when the nodes on the way to it stay awake. -/
theorem Active.of_awake (linked : Linked tree []) (active : Active tree id failed)
    (children : next.childrenOf = tree.childrenOf)
    (awake : ∀ other, Within tree failed other → Awake tree other → Awake next other) :
    Active next id failed := by
  have kept : ∀ other, Active tree id other → Within tree failed other → Active next id other := by
    intro other active within
    induction active with
    | top here => exact .top (awake _ within here)
    | child _ listed here ih =>
      have above := Relation.ReflTransGen.tail within (linked.parentOf_child listed)
      exact .child (ih above) (children ▸ listed) (awake _ within here)
  exact kept failed active (.refl tree failed)

/-- Every pass comes to a node, or fails in the check of a node that comes before. -/
def ComesTo (host : Host σ) (purpose : Purpose) (id node : NodeId) (world : σ × Tree σ κ) : Prop :=
  ∃ visited, Walk world.2 [id] visited ∧ node ∈ visited ∧ ∀ result later,
    pass host purpose id world = (result, later) →
      ∃ (course : List (Inspection σ κ)) (reached : σ),
        Inspects host purpose world.2 world.1 course reached ∧
        (result = .ok () ∧ course.map Inspection.id = visited ∨
          ∃ cause stopped rest, result = .error (.check cause) ∧
            visited = course.map Inspection.id ++ stopped :: rest ∧
            (node ∈ course.map Inspection.id ∨ stopped = node ∨ node ∈ rest))

theorem comesTo_of_active (host : Host σ) (purpose : Purpose) {world : σ × Tree σ κ}
    (linked : Linked world.2 []) (active : Active world.2 id failed) :
    ComesTo host purpose id failed world := by
  obtain ⟨top, held, -⟩ := active.awake_top
  have present := Forest.contains_iff.mpr ⟨top, held⟩
  obtain ⟨visited, walk, -, ends⟩ := exists_pass_ends host purpose linked present world.1
  have among : failed ∈ visited := walk.mem_iff.mpr ⟨id, List.mem_singleton_self id, active⟩
  refine ⟨visited, walk, among, fun result later ran => ?_⟩
  rcases ends _ _ ran with ⟨course, last, next, ended, passed⟩ |
    ⟨course, stopped, cause, events, last, next, ended, stops⟩
  · cases congrArg Prod.fst ended
    exact ⟨course, last, passed.inspects, .inl ⟨rfl, passed.order⟩⟩
  · cases congrArg Prod.fst ended
    obtain ⟨rest, order⟩ := stops.order
    obtain ⟨_, _, reached, _, inspects, _⟩ := stops.fails
    refine ⟨course, reached, inspects, .inr ⟨cause, stopped, rest, rfl, order, ?_⟩⟩
    rw [order, List.mem_append, List.mem_cons] at among
    exact among.imp_right fun behind => behind.imp_left Eq.symm

/-- Whatever has been done with a tree, a pass that fails does so in the check of one node, behind checks of
the nodes in front of it that did not fail. Its check breaks off, and all other nodes are as they were,
apart from those checked before, whose visits are over unless they lie above it. Those of them that were
to be checked once have been checked then, and all other modes are as before. As long as links and modes
stay, the next pass comes to the node again. -/
theorem pass_stops (host : Host σ) (start : σ) (operations : List (Operation σ κ))
    (purpose : Purpose) {id : NodeId} {error : DetectorError} {later : σ} {next : Tree σ κ}
    (live : Forest.contains (after host operations (start, {})).2 id = true)
    (ran : pass host purpose id (after host operations (start, {})) =
      (.error error, (later, next))) :
    let world := after host operations (start, {})
    ∃ cause visited, error = .check cause ∧ Walk world.2 [id] visited ∧
      ∃ (course : List (Inspection σ κ)) (failed : NodeId) (rest : List NodeId),
        visited = course.map Inspection.id ++ failed :: rest ∧
        (∃ node reached bindings events, world.2.node? failed = some node ∧
          Inspects host purpose world.2 world.1 course reached ∧
          node.payload.narrate host purpose reached =
            (((.error cause, { node.payload with bindings }), events), later) ∧
          tidings host purpose id world =
            courseTidings course ++ events.map (fun event => (failed, event)) ∧
          node.payload.BreaksOff host purpose reached cause bindings later ∧
          next.node? failed = some { node with payload := { node.payload with bindings } }) ∧
        (∀ inspection ∈ course, ∃ node mode, world.2.node? inspection.id = some node ∧
          next.node? inspection.id = some { node with
            payload := { inspection.detector with mode } } ∧
          (Forest.Below world.2 failed inspection.id → mode = node.payload.mode) ∧
          (¬ Forest.Below world.2 failed inspection.id → mode = node.payload.mode.afterVisit)) ∧
        (∀ other ∉ course.map Inspection.id, other ≠ failed →
          next.node? other = world.2.node? other) ∧
        Expends (fun other => other ∈ course.map Inspection.id ∧ ¬ Forest.Below world.2 failed other)
          world.2 next ∧
        ∀ between : List (Operation σ κ), (∀ operation ∈ between, operation.Sparing) →
          ∀ again, ComesTo host again id failed (after host between (later, next)) := by
  intro world
  have linked : Linked world.2 [] := after_linked host start operations
  obtain ⟨visited, walk, -, ends⟩ := exists_pass_ends host purpose linked live world.1
  rcases ends _ _ ran with ⟨_, _, _, ended, -⟩ |
    ⟨course, failed, cause, events, later', next', ended, stopped⟩
  · cases ended
  simp only [Prod.mk.injEq, Except.error.injEq, List.nil_append] at ended
  obtain ⟨rfl, ⟨rfl, rfl⟩, told⟩ := ended
  obtain ⟨rest, order⟩ := stopped.order
  obtain ⟨node, detector, reached, found, inspects, fails, left⟩ := stopped.fails
  have plain := node.payload.narrate_erases host purpose reached
  rw [fails] at plain
  obtain ⟨bindings, rfl, breaks⟩ := Detector.check_breaksOff plain
  have leaves : ∀ inspection ∈ course, ∃ node mode, world.2.node? inspection.id = some node ∧
      next.node? inspection.id = some { node with payload := { inspection.detector with mode } } ∧
      (Forest.Below world.2 failed inspection.id → mode = node.payload.mode) ∧
      (¬ Forest.Below world.2 failed inspection.id → mode = node.payload.mode.afterVisit) := by
    intro inspection member
    by_cases below : Forest.Below world.2 failed inspection.id
    · obtain ⟨node, found, left⟩ := stopped.above inspection member below
      exact ⟨node, inspection.detector.mode, found, left, fun _ => inspects.mode member found,
        fun apart => absurd below apart⟩
    · obtain ⟨node, found, left⟩ := stopped.marked inspection member below
      exact ⟨node, inspection.detector.mode.afterVisit, found, left, fun above => absurd above below,
        fun _ => congrArg Mode.afterVisit (inspects.mode member found)⟩
  refine ⟨cause, visited, rfl, walk, course, failed, rest, order,
    ⟨node, reached, bindings, events, found, inspects, fails, told, breaks, left⟩, leaves,
    stopped.others, .of_afterVisit ?_ ?_, fun between sparing again => ?_⟩
  · rintro id here ⟨among, apart⟩ held
    obtain ⟨inspection, member, rfl⟩ := List.mem_map.mp among
    obtain ⟨here', mode, held', left', -, behind⟩ := leaves inspection member
    cases held.symm.trans held'
    exact ⟨_, left', behind apart⟩
  · intro id here unfinished held
    by_cases same : id = failed
    · subst same
      cases held.symm.trans found
      exact ⟨_, left, rfl⟩
    · by_cases among : id ∈ course.map Inspection.id
      · obtain ⟨inspection, member, rfl⟩ := List.mem_map.mp among
        obtain ⟨here', mode, held', left', above, -⟩ := leaves inspection member
        cases held.symm.trans held'
        exact ⟨_, left', above (not_not.mp fun apart => unfinished ⟨among, apart⟩)⟩
      · exact ⟨here, (stopped.others id among same).trans held, rfl⟩
  · have alike : Alike world (later, next) := by
      have alike := pass_alike host purpose id world
      rwa [ran] at alike
    have active : Active world.2 id failed := by
      have among : failed ∈ visited := by simp [order]
      obtain ⟨top, listed, active⟩ := walk.mem_iff.mp among
      exact List.mem_singleton.mp listed ▸ active
    have still := active.of_awake linked alike.children fun _ => stopped.awake
    have likewise := after_likewise host sparing (later, next)
    refine comesTo_of_active host again ((linked.alike alike).alike likewise.toAlike) ?_
    exact still.of_awake (linked.alike alike) likewise.children fun other _ => likewise.awake other

end Tree
end ChangeWatch

namespace ChangeWatch.Shelf

/-- The family, with its second child active, with a context that has no list for it, and with a root to be
checked once. -/
def brokenFamily : List (Operation Nat Empty) :=
  family ++ [.setMode (nth 0) .checkOnce, .setMode (nth 2) .checkAlways, .hydrate (nth 2) .null []]

/-- A pass over the broken family fails, and the next one comes to the same node again. The first child has
been checked, while the root is still to be checked once. -/
theorem pass_stops_brokenFamily :
    Forest.contains (Tree.after application brokenFamily (1, {})).2 (nth 0) = true ∧
      ∃ (cause : CheckError) (later : Nat) (next : Tree Nat Empty)
        (course : List (Tree.Inspection Nat Empty)) (failed : NodeId) (rest : List NodeId),
        Tree.detectChanges application (nth 0) (Tree.after application brokenFamily (1, {})) =
          (.error (.check cause), (later, next)) ∧
        [nth 0, nth 1, nth 3, nth 2, nth 4] = course.map Tree.Inspection.id ++ failed :: rest ∧
        Tree.Expends (fun other => other ∈ course.map Tree.Inspection.id ∧
          ¬ Forest.Below (Tree.after application brokenFamily (1, {})).2 failed other)
          (Tree.after application brokenFamily (1, {})).2 next ∧
        [0, 1, 2, 3, 4].map (fun index =>
          (next.node? (nth index)).map fun node => node.payload.mode) =
          [some .checkOnce, some .checked, some .checkAlways, some .checkAlways,
            some .checkAlways] ∧
        Tree.ComesTo application .verify (nth 0) failed (later + 1, next) := by
  have live : Forest.contains (Tree.after application brokenFamily (1, {})).2 (nth 0) = true := by
    decide +kernel
  have fails : (Tree.detectChanges application (nth 0)
      (Tree.after application brokenFamily (1, {}))).1.isOk = false := by decide +kernel
  have modes : [0, 1, 2, 3, 4].map (fun index => ((Tree.detectChanges application (nth 0)
      (Tree.after application brokenFamily (1, {}))).2.2.node? (nth index)).map
        fun node => node.payload.mode) =
      [some .checkOnce, some .checked, some .checkAlways, some .checkAlways, some .checkAlways] := by
    decide +kernel
  rcases ran : Tree.detectChanges application (nth 0) (Tree.after application brokenFamily (1, {}))
    with ⟨result, later, next⟩
  rw [ran] at fails modes
  cases result with
  | ok => cases fails
  | error error =>
    obtain ⟨cause, visited, rfl, walk, course, failed, rest, order, -, -, -, marks, again⟩ :=
      Tree.pass_stops application 1 brokenFamily .detect live ran
    have all : Tree.Walk (Tree.after application brokenFamily (1, {})).2 [nth 0]
        (nth 0 :: ((nth 1 :: ((nth 3 :: ([] ++ [])) ++ (nth 2 :: ((nth 4 :: ([] ++ [])) ++ [])))) ++
          [])) :=
      .enter rfl rfl (.enter rfl rfl (.enter rfl rfl .done .done)
        (.enter rfl rfl (.enter rfl rfl .done .done) .done)) .done
    exact ⟨live, cause, later, next, course, failed, rest, rfl, (all.unique walk).trans order, marks,
      modes, again [.mutate (· + 1)] (List.forall_mem_singleton.mpr trivial) .verify⟩

end ChangeWatch.Shelf
