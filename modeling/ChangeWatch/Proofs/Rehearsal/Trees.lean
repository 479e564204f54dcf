import ChangeWatch.Proofs.Rehearsal.Twins
import ChangeWatch.Proofs.Rehearsal.Verifications

/-!
Detections behind a verification. As far as the verification got, they find everything at rest and have
nothing to hand over, as a detection alone has nothing to hand over. Where the verification failed, they
find what a detection alone would find, and the rest of both goes alike.
-/
namespace ChangeWatch.Tree

open Forest (Every Linked)
open Stateful (RefinesAt)

variable {hosted : HostedPipes σ Empty} {outlook : Outlook σ ν} {Trusted : Dispatcher σ → Prop}
  {Alike : σ → σ → Prop} {seen : ν} {tree other next : Tree σ Empty} {id : NodeId} {state last : σ}
  {cause : DetectorError} {depth : Nat} {told told' : Tidings}

/-- Whatever silent passes leave of a detector is a twin of it. -/
theorem twin_of_echo {detector later : Detector σ Empty}
    (fit : detector.Fit hosted outlook (Dispatcher.Discreet outlook Alike) seen)
    (mode : later.mode = detector.mode)
    (payload : later = detector ∨ detector.Rested hosted outlook seen later) :
    detector.Twin hosted outlook Alike seen later := by
  rcases payload with rfl | rested
  · exact fit.twin
  · exact rested.twin fit mode

theorem Echo.twin (echo : Echo hosted outlook seen tree other)
    (fit : Every (Detector.Fit hosted outlook (Dispatcher.Discreet outlook Alike) seen) tree) :
    Twin hosted outlook Alike seen tree other where
  missing := echo.missing
  node id node found := by
    obtain ⟨node', found', children, mode, payload⟩ := echo.node id node found
    exact ⟨node', found', children, twin_of_echo (fit.of_some found) mode payload⟩

/-- Two trees that were the same but for one node, when this node has got twins for its detectors. -/
theorem Echo.twin_modify {between : Detector σ Empty} {later : ν} {detector detector' : Detector σ Empty}
    (echo : Echo hosted outlook seen
      (Forest.modify tree id fun node => { node with payload := between }) other)
    (fit : Every (Detector.Fit hosted outlook (Dispatcher.Discreet outlook Alike) seen) tree)
    (twin : detector.Twin hosted outlook Alike later detector') (keeps : outlook.Keeps seen later) :
    Twin hosted outlook Alike later
      (Forest.modify tree id fun node => { node with payload := detector })
      (Forest.modify other id fun node => { node with payload := detector' }) where
  missing there absent := by
    have absent' : Forest.node? other there = none := by
      refine echo.missing there ?_
      rw [Forest.node?_modify] at absent ⊢
      split at absent
      · rename_i same
        rw [if_pos same, Option.map_eq_none_iff.mp absent, Option.map_none]
      · rename_i different
        rw [if_neg different, absent]
    rw [Forest.node?_modify, absent']
    split <;> rfl
  node there here looked := by
    have echoed := echo.node there
    rw [Forest.node?_modify] at looked echoed ⊢
    split at looked
    · rename_i same
      obtain ⟨node, found, rfl⟩ := Option.map_eq_some_iff.mp looked
      rw [if_pos same, found, Option.map_some] at echoed
      obtain ⟨node', found', children, -⟩ := echoed _ rfl
      rw [if_pos same, found', Option.map_some]
      exact ⟨_, rfl, children, twin⟩
    · rename_i different
      rw [if_neg different] at echoed
      obtain ⟨node', found', children, mode, payload⟩ := echoed here looked
      rw [if_neg different]
      exact ⟨node', found', children, (twin_of_echo (fit.of_some looked) mode payload).mono keeps⟩

/-- A tree from which a verification may end in an error. -/
structure Poised (hosted : HostedPipes σ Empty) (outlook : Outlook σ ν) (Alike : σ → σ → Prop)
    (cause : DetectorError) (seen : ν) (tree : Tree σ Empty) : Prop where
  linked : Linked tree []
  fit : Every (Detector.Fit hosted outlook (Dispatcher.Discreet outlook Alike) seen) tree
  spared : Every (Detector.Spared cause) tree

/-- A part of a verification leaves a tree from which the next part may end in an error. -/
theorem Poised.step {operation : TreeM σ Empty α} {result : Except DetectorError α}
    (poised : Poised hosted outlook Alike cause (outlook.view state) tree)
    (alike : Stateful.Along Tree.Alike operation)
    (unmoved : Stateful.Along (Unmoved hosted outlook (Dispatcher.Discreet outlook Alike) cause)
      operation)
    (ran : operation (state, tree) = (result, (last, next))) :
    last = state ∧ Poised hosted outlook Alike cause (outlook.view state) next := by
  have kept := alike (state, tree)
  have stays := unmoved (state, tree) poised.fit
  rw [ran] at kept stays
  exact ⟨stays.1, poised.linked.alike kept, stays.2.1, stays.2.2 poised.spared⟩

/-- A detection that goes the same way alone and behind a verification that fails, even if silent passes
come in between. -/
def Recovers (hosted : HostedPipes σ Empty) (outlook : Outlook σ ν) (Alike : σ → σ → Prop)
    (cause : DetectorError) (state : σ) (next : Tree σ Empty) (verification : TreeM σ Empty Unit)
    (detection : ToldM σ Empty Unit) : Prop :=
  ∀ ⦃tree last other told told'⦄, Poised hosted outlook Alike cause (outlook.view state) tree →
    verification (state, tree) = (.error cause, (last, next)) →
    Echo hosted outlook (outlook.view state) next other → Tidings.shapes told = Tidings.shapes told' →
    RefinesAt (Paired hosted outlook Alike) Eq detection detection
      ((state, tree), told) ((state, other), told')

variable (views : ∀ state other, Alike state other → outlook.view other = outlook.view state)
  (reflexive : ∀ state, Alike state state)
include views reflexive

theorem narrateNode_recovers (id : NodeId) :
    Recovers hosted outlook Alike cause state next (checkNode outlook.host .verify id)
      (narrateNode outlook.host .detect id) := by
  intro tree last other told told' ⟨_, fit, spared⟩ ran echo shapes
  rw [checkNode, Stateful.bind_apply] at ran
  cases found : tree.node? id with
  | none =>
    rw [TreeM.onDetector_of_none found] at ran
    cases ran
    simp only [RefinesAt, narrateNode, Forest.node, found, echo.missing id found]
    exact ⟨.error _, reflexive _, echo.twin fit, shapes⟩
  | some node =>
    rw [TreeM.onDetector_of_some found] at ran
    rcases checked : node.payload.check outlook.host .verify state with ⟨⟨result, detector⟩, later⟩
    simp only [checked] at ran
    cases result with
    | ok total => cases ran
    | error inner =>
      cases ran
      obtain ⟨-, restless, matching⟩ := (fit.of_some found).narrate_failed views reflexive
        (spared.of_some found inner rfl) checked
      obtain ⟨node', found', children, mode, payload⟩ :=
        echo.node id _ (Forest.node?_modify_of_some found _)
      -- The node where the verification failed is not at rest, so no pass has been over it since.
      have same : node'.payload = detector :=
        payload.resolve_right fun rested => restless rested.start
      exact narrateNode_paired found found' (same ▸ matching)
        (fun _ _ _ twin keeps => echo.twin_modify fit twin keeps) shapes

omit reflexive in
theorem narrateEach_recovers
    (each : ∀ id, Recovers hosted outlook Alike cause state next (visit outlook.host .verify depth id)
      (narrateVisit outlook.host .detect depth id)) (ids : List NodeId) :
    Recovers hosted outlook Alike cause state next (visitEach (visit outlook.host .verify depth) ids)
      (narrateEach (narrateVisit outlook.host .detect depth) ids) := by
  induction ids with
  | nil => exact fun _ _ _ _ _ _ ran => nomatch ran
  | cons id ids ih =>
    intro tree last other told told' poised ran echo shapes
    have others (first second : Unit) (_ : first = second) :
        Stateful.Refines (Paired hosted outlook Alike) Eq
          (narrateEach (narrateVisit outlook.host .detect depth) ids)
          (narrateEach (narrateVisit outlook.host .detect depth) ids) :=
      narrateEach_refines (narrateVisit_refines views depth) ids
    rw [visitEach, Stateful.bind_apply] at ran
    rcases visited : visit outlook.host .verify depth id (state, tree) with ⟨result, between, middle⟩
    rw [visited] at ran
    cases result with
    | error cause =>
      cases ran
      exact (each id poised visited echo shapes).bind others
    | ok _ =>
      obtain ⟨rfl, poised'⟩ := poised.step (visit_alike _ _ depth id) (visit_unmoved depth id) visited
      have ran : visitEach (visit outlook.host .verify depth) ids (between, middle) =
        (.error cause, (last, next)) := ran
      have leaves := Purpose.leaves_verify outlook (Dispatcher.Discreet outlook Alike)
      have calmer := visitEach_along (visit_fitting leaves depth) ids (between, middle) poised'.fit
      rw [ran] at calmer
      have quiet := (visit_quiet leaves poised.fit visited).mono calmer.2.2
      obtain ⟨tidings, tells, silent⟩ := narrateVisit_rehearsed _ depth id _ _ _ visited told
      obtain ⟨other, tidings', tells', echo, silent'⟩ := narrateVisit_silent quiet echo told'
      refine .behind tells tells' (ih poised' ran echo ?_)
      rw [Tidings.shapes_append, Tidings.shapes_append, shapes, silent, Tidings.shapes_of_silent silent']

omit reflexive in
/-- The way down behind a check of a node that succeeds. -/
theorem narrateBelow_recovers {node node' : Node (Detector σ Empty)}
    (each : ∀ id, Recovers hosted outlook Alike cause state next (visit outlook.host .verify depth id)
      (narrateVisit outlook.host .detect depth id))
    (poised : Poised hosted outlook Alike cause (outlook.view state) tree)
    (found : tree.node? id = some node)
    (ran : visitEach (visit outlook.host .verify depth) node.children (state, tree) =
      (.error cause, (last, next)))
    (echo : Echo hosted outlook (outlook.view state) next other)
    (found' : other.node? id = some node') (same : node'.children = node.children)
    (shapes : told.shapes = told'.shapes) :
    let below : ToldM σ Empty Unit := do
      narrateEach (narrateVisit outlook.host .detect depth) (← .quiet (children id))
      .quiet do setMode id (← mode id).afterVisit
    RefinesAt (Paired hosted outlook Alike) Eq below below ((state, tree), told)
      ((state, other), told') := by
  have asked := ToldM.quiet_of_ok (children_of_some found state) told
  have asked' := ToldM.quiet_of_ok (children_of_some found' state) told'
  rw [same] at asked'
  have below := narrateEach_recovers views each node.children poised ran echo shapes
  exact .behind asked asked' (below.bind fun _ _ _ => mark_refines id)

/-- A detection behind a verification that fails goes the same way as one alone. -/
theorem narrateVisit_recovers (depth : Nat) (id : NodeId) :
    Recovers hosted outlook Alike cause state next (visit outlook.host .verify depth id)
      (narrateVisit outlook.host .detect depth id) := by
  induction depth generalizing id with
  | zero => exact fun _ _ _ _ _ _ ran => nomatch ran
  | succ depth ih =>
    intro tree last other told told' poised ran echo shapes
    cases found : tree.node? id with
    | none =>
      rw [visit, mode, Stateful.bind_of_error (TreeM.onDetector_of_none found)] at ran
      cases ran
      exact narrateVisit_refines views (depth + 1) id _ _
        ⟨reflexive state, echo.twin poised.fit, shapes⟩
    | some node =>
      obtain ⟨active, detector, mode, held, failed⟩ := visit_failed poised.linked found ran
      obtain ⟨node', found', children, mode', -⟩ := echo.node id _ held
      have asked := ToldM.quiet_of_ok (mode_of_some found state) told
      have asked' := ToldM.quiet_of_ok (mode_of_some found' state) told'
      rw [mode'.trans mode] at asked'
      refine .behind asked asked' ?_
      rw [active, if_neg Bool.false_ne_true]
      rcases failed with checked | ⟨between, middle, checked, found₁, below⟩
      · have here := narrateNode_recovers views reflexive id poised checked echo shapes
        exact here.bind fun _ _ _ => narrateBelow_refines (narrateVisit_refines views depth) id
      · obtain ⟨rfl, poised₁⟩ :=
          poised.step (checkNode_alike _ _ id) (checkNode_unmoved id) checked
        have leaves := Purpose.leaves_verify outlook (Dispatcher.Discreet outlook Alike)
        have rests := checkNode_rests leaves poised.fit checked found₁
        obtain ⟨tidings, tells, silent⟩ := narrateNode_rehearsed _ id _ _ _ checked told
        obtain ⟨other, tidings', tells', echo, silent'⟩ := narrateNode_silent echo held rests told'
        obtain ⟨node', found', children, -⟩ := echo.node id _ held
        refine .behind tells tells' ?_
        refine narrateBelow_recovers views ih poised₁ found₁ below echo found' children ?_
        rw [Tidings.shapes_append, Tidings.shapes_append, shapes, silent, Tidings.shapes_of_silent silent']

end ChangeWatch.Tree
