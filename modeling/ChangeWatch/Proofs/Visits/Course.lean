import ChangeWatch.Proofs.Delivery.Pass
import ChangeWatch.Proofs.Rest.Trees
import ChangeWatch.Proofs.Visits.Order

/-!
The course of a pass. The nodes on the way are checked one after the other, each as the tree holds it
when the pass begins, because a check changes its own node only. A pass that gets through marks every
node that it has visited. A pass that a check stops marks the nodes whose visits are over: not the
failing one, and not those above it.
-/
namespace ChangeWatch.Tree

open Forest (Within Below Apart Deep Linked)

/-- A node that was checked without failure: its detector behind the check, and what happened. -/
structure Inspection (σ κ : Type) where
  id : NodeId
  detector : Detector σ κ
  events : List Event

/-- A node whose visit is over. -/
def Inspection.marked (inspection : Inspection σ κ) (node : Node (Detector σ κ)) :
    Node (Detector σ κ) :=
  { node with payload :=
    { inspection.detector with mode := inspection.detector.mode.afterVisit } }

/-- A node that was checked, but whose visit is not over. -/
def Inspection.open (inspection : Inspection σ κ) (node : Node (Detector σ κ)) :
    Node (Detector σ κ) :=
  { node with payload := inspection.detector }

def Inspection.tidings (inspection : Inspection σ κ) : Tidings :=
  inspection.events.map fun event => (inspection.id, event)

/-- Nodes of a tree, as they are there, are checked one after the other without failure. -/
inductive Inspects (host : Host σ) (purpose : Purpose) (tree : Tree σ κ) :
    σ → List (Inspection σ κ) → σ → Prop where
  | nil (state : σ) : Inspects host purpose tree state [] state
  | cons {id : NodeId} {node : Node (Detector σ κ)} {total : Nat} {detector : Detector σ κ}
    {events : List Event} {others : List (Inspection σ κ)} {state between later : σ}
    (found : tree.node? id = some node)
    (ran : node.payload.narrate host purpose state = (((.ok total, detector), events), between))
    (rest : Inspects host purpose tree between others later) :
    Inspects host purpose tree state ({ id, detector, events } :: others) later

theorem Inspects.append {host : Host σ} {purpose : Purpose} {tree : Tree σ κ}
    {first second : List (Inspection σ κ)} {state between later : σ}
    (before : Inspects host purpose tree state first between)
    (behind : Inspects host purpose tree between second later) :
    Inspects host purpose tree state (first ++ second) later := by
  induction before with
  | nil => exact behind
  | cons found ran _ ih => exact .cons found ran (ih behind)

variable {host : Host σ} {purpose : Purpose} {tree now between next : Tree σ κ}
  {visited : List NodeId} {course : List (Inspection σ κ)} {state middle later : σ}

/-- What visits that get through leave of a tree, most of which they found as it was before. -/
structure Passed (host : Host σ) (purpose : Purpose) (tree : Tree σ κ) (visited : List NodeId)
    (course : List (Inspection σ κ)) (state : σ) (now : Tree σ κ) (later : σ) (next : Tree σ κ) :
    Prop where
  order : course.map Inspection.id = visited
  inspects : Inspects host purpose tree state course later
  marked : ∀ inspection ∈ course, ∃ node, tree.node? inspection.id = some node ∧
    next.node? inspection.id = some (inspection.marked node)
  others : ∀ id ∉ visited, next.node? id = now.node? id

/-- What visits that a failing check stops leave of a tree. -/
structure Stopped (host : Host σ) (purpose : Purpose) (tree : Tree σ κ) (visited : List NodeId)
    (course : List (Inspection σ κ)) (failed : NodeId) (cause : CheckError) (events : List Event)
    (state : σ) (now : Tree σ κ) (later : σ) (next : Tree σ κ) : Prop where
  order : ∃ rest, visited = course.map Inspection.id ++ failed :: rest
  fails : ∃ node detector reached, tree.node? failed = some node ∧
    Inspects host purpose tree state course reached ∧
    node.payload.narrate host purpose reached = (((.error cause, detector), events), later) ∧
    next.node? failed = some { node with payload := detector }
  above : ∀ inspection ∈ course, Below tree failed inspection.id → ∃ node,
    tree.node? inspection.id = some node ∧ next.node? inspection.id = some (inspection.open node)
  marked : ∀ inspection ∈ course, ¬ Below tree failed inspection.id → ∃ node,
    tree.node? inspection.id = some node ∧ next.node? inspection.id = some (inspection.marked node)
  others : ∀ id ∉ course.map Inspection.id, id ≠ failed → next.node? id = now.node? id

namespace Passed

theorem nil (tree now : Tree σ κ) (state : σ) :
    Passed host purpose tree [] [] state now state now :=
  ⟨rfl, .nil state, (fun _ member => by cases member), fun _ _ => rfl⟩

/-- Visits behind visits of other nodes. -/
theorem append {first second : List NodeId} {course' : List (Inspection σ κ)}
    (passed : Passed host purpose tree first course state now middle between)
    (passed' : Passed host purpose tree second course' middle between later next)
    (disjoint : ∀ id ∈ first, id ∉ second) :
    Passed host purpose tree (first ++ second) (course ++ course') state now later next where
  order := by rw [List.map_append, passed.order, passed'.order]
  inspects := passed.inspects.append passed'.inspects
  marked := by
    refine List.forall_mem_append.mpr ⟨fun inspection member => ?_, passed'.marked⟩
    obtain ⟨node, found, left⟩ := passed.marked inspection member
    have before := passed.order ▸ List.mem_map_of_mem member
    exact ⟨node, found, (passed'.others _ (disjoint _ before)).trans left⟩
  others id outside := by
    rw [List.mem_append, not_or] at outside
    exact (passed'.others id outside.2).trans (passed.others id outside.1)

/-- A node with everything that is visited below it. -/
theorem enclose {id : NodeId} {node : Node (Detector σ κ)} {total : Nat} {detector : Detector σ κ}
    {events : List Event} {below : List NodeId}
    (found : tree.node? id = some node) (here : now.node? id = some node)
    (ran : node.payload.narrate host purpose state = (((.ok total, detector), events), middle))
    (passed : Passed host purpose tree below course middle
      (Forest.modify now id fun other => { other with payload := detector }) later between)
    (outside : id ∉ below) :
    Passed host purpose tree (id :: below) ({ id, detector, events } :: course) state now later
      (Forest.modify between id fun other => { other with
        payload := { detector with mode := detector.mode.afterVisit } }) where
  order := congrArg (id :: ·) passed.order
  inspects := .cons found ran passed.inspects
  marked := by
    have between := (passed.others id outside).trans (Forest.node?_modify_of_some here _)
    refine List.forall_mem_cons.mpr ⟨⟨node, found, Forest.node?_modify_of_some between _⟩, ?_⟩
    intro inspection member
    obtain ⟨node, found, left⟩ := passed.marked inspection member
    have lower : inspection.id ∈ below := passed.order ▸ List.mem_map_of_mem member
    have apart : inspection.id ≠ id := fun same => outside (same ▸ lower)
    exact ⟨node, found, by rw [Forest.node?_modify, if_neg apart, left]⟩
  others other away := by
    obtain ⟨apart, away⟩ := not_or.mp (List.mem_cons.not.mp away)
    rw [Forest.node?_modify, if_neg apart, passed.others other away, Forest.node?_modify,
      if_neg apart]

end Passed

namespace Stopped

variable {failed : NodeId} {cause : CheckError} {events : List Event}

/-- A failure leaves whatever would have been visited behind it. -/
theorem append (stopped : Stopped host purpose tree visited course failed cause events state now
    later next) (others : List NodeId) :
    Stopped host purpose tree (visited ++ others) course failed cause events state now later next :=
  have ⟨rest, order⟩ := stopped.order
  { stopped with order := ⟨rest ++ others, by rw [order, List.append_assoc, List.cons_append]⟩ }

/-- A failure behind visits that are over. -/
theorem behind {first : List NodeId} {course' : List (Inspection σ κ)}
    (passed : Passed host purpose tree first course state now middle between)
    (stopped : Stopped host purpose tree visited course' failed cause events middle between
      later next)
    (disjoint : ∀ id ∈ first, id ∉ visited) (apart : ∀ id ∈ first, ¬ Below tree failed id) :
    Stopped host purpose tree (first ++ visited) (course ++ course') failed cause events state now
      later next := by
  obtain ⟨rest, order⟩ := stopped.order
  have before (inspection : Inspection σ κ) (member : inspection ∈ course) :
      inspection.id ∈ first := passed.order ▸ List.mem_map_of_mem member
  have still (id : NodeId) (member : id ∈ first) : next.node? id = between.node? id := by
    have away := disjoint id member
    rw [order, List.mem_append, List.mem_cons, not_or, not_or] at away
    exact stopped.others id away.1 away.2.1
  refine ⟨⟨rest, ?_⟩, ?_, ?_, ?_, fun id outside apart' => ?_⟩
  · rw [order, List.map_append, passed.order, List.append_assoc]
  · obtain ⟨node, detector, reached, found, inspects, ran, left⟩ := stopped.fails
    exact ⟨node, detector, reached, found, passed.inspects.append inspects, ran, left⟩
  · refine List.forall_mem_append.mpr ⟨fun inspection member below => ?_, stopped.above⟩
    exact absurd below (apart _ (before inspection member))
  · refine List.forall_mem_append.mpr ⟨fun inspection member _ => ?_, stopped.marked⟩
    obtain ⟨node, found, left⟩ := passed.marked inspection member
    exact ⟨node, found, (still _ (before inspection member)).trans left⟩
  · rw [List.map_append, List.mem_append, not_or, passed.order] at outside
    exact (stopped.others id outside.2 apart').trans (passed.others id outside.1)

/-- A failure below a node. -/
theorem enclose {id : NodeId} {node : Node (Detector σ κ)} {total : Nat} {detector : Detector σ κ}
    {told : List Event} {below : List NodeId}
    (found : tree.node? id = some node) (here : now.node? id = some node)
    (ran : node.payload.narrate host purpose state = (((.ok total, detector), told), middle))
    (stopped : Stopped host purpose tree below course failed cause events middle
      (Forest.modify now id fun other => { other with payload := detector }) later next)
    (outside : id ∉ below) (lower : ∀ other ∈ below, Below tree other id) :
    Stopped host purpose tree (id :: below) ({ id, detector, events := told } :: course) failed cause
      events state now later next := by
  obtain ⟨rest, order⟩ := stopped.order
  have below : Below tree failed id := lower failed (by simp [order])
  rw [order, List.mem_append, List.mem_cons, not_or, not_or] at outside
  have here' := (stopped.others id outside.1 outside.2.1).trans (Forest.node?_modify_of_some here _)
  refine ⟨⟨rest, ?_⟩, ?_, ?_, ?_, fun other away apart => ?_⟩
  · exact congrArg (id :: ·) order
  · obtain ⟨node, detector, reached, found', inspects, ran', left⟩ := stopped.fails
    exact ⟨node, detector, reached, found', .cons found ran inspects, ran', left⟩
  · exact List.forall_mem_cons.mpr ⟨fun _ => ⟨node, found, here'⟩, stopped.above⟩
  · exact List.forall_mem_cons.mpr ⟨fun apart => absurd below apart, stopped.marked⟩
  · obtain ⟨apart', away⟩ := not_or.mp (List.mem_cons.not.mp away)
    rw [stopped.others other away apart, Forest.node?_modify, if_neg apart']

/-- A failure of the first check. -/
theorem first {id : NodeId} {node : Node (Detector σ κ)} {detector : Detector σ κ}
    (found : tree.node? id = some node) (here : now.node? id = some node)
    (ran : node.payload.narrate host purpose state = (((.error cause, detector), events), later))
    (others : List NodeId) :
    Stopped host purpose tree (id :: others) [] id cause events state now later
      (Forest.modify now id fun other => { other with payload := detector }) where
  order := ⟨others, rfl⟩
  fails := ⟨node, detector, state, found, .nil state, ran, Forest.node?_modify_of_some here _⟩
  above _ member := by cases member
  marked _ member := by cases member
  others other _ apart := by rw [Forest.node?_modify, if_neg apart]

end Stopped

/-- What happens on a course. -/
def courseTidings (course : List (Inspection σ κ)) : Tidings :=
  course.flatMap Inspection.tidings

/-- How visits end: they get through, or the check of a node stops them. -/
def Ends (host : Host σ) (purpose : Purpose) (tree : Tree σ κ) (visited : List NodeId)
    (state : σ) (now : Tree σ κ) (told : Tidings)
    (ran : Except DetectorError Unit × (σ × Tree σ κ) × Tidings) : Prop :=
  (∃ course later next, ran = (.ok (), ((later, next), told ++ courseTidings course)) ∧
    Passed host purpose tree visited course state now later next) ∨
  ∃ course failed cause events later next,
    ran = (.error (.check cause), ((later, next),
      told ++ (courseTidings course ++ events.map fun event => (failed, event)))) ∧
    Stopped host purpose tree visited course failed cause events state now later next

/-- A told check of a node. -/
theorem narrateNode_of_some {id : NodeId} {node : Node (Detector σ κ)}
    {result : Except CheckError Nat} {detector : Detector σ κ} {events : List Event}
    (found : now.node? id = some node)
    (ran : node.payload.narrate host purpose state = (((result, detector), events), later))
    (told : Tidings) :
    narrateNode host purpose id ((state, now), told) =
      ((result.map fun _ => ()).mapError .check,
        ((later, Forest.modify now id fun other => { other with payload := detector }),
          told ++ events.map fun event => (id, event))) := by
  simp only [narrateNode, Forest.node_eq_ok.mpr found, ran]
  cases result <;> rfl

theorem quiet_read {question : TreeM σ κ α} {value : α} {world : σ × Tree σ κ}
    (asked : question world = (.ok value, world)) (told : Tidings) :
    ToldM.quiet question (world, told) = (.ok value, (world, told)) := by
  rw [ToldM.quiet, asked]

theorem courseTidings_append (first second : List (Inspection σ κ)) :
    courseTidings (first ++ second) = courseTidings first ++ courseTidings second :=
  List.flatMap_append

/-- Visits behind others end as the first failure among them does. -/
theorem Ends.append {first second : List NodeId} {visit rest : ToldM σ κ Unit} {told : Tidings}
    (before : Ends host purpose tree first state now told (visit ((state, now), told)))
    (behind : ∀ between middle told, (∀ id ∉ first, between.node? id = now.node? id) →
      Ends host purpose tree second middle between told (rest ((middle, between), told)))
    (disjoint : ∀ id ∈ first, id ∉ second)
    (apart : ∀ failed ∈ second, ∀ id ∈ first, ¬ Below tree failed id) :
    Ends host purpose tree (first ++ second) state now told
      ((visit >>= fun _ => rest) ((state, now), told)) := by
  rcases before with ⟨course, middle, between, ran, passed⟩ |
    ⟨course, failed, cause, events, later, next, ran, stopped⟩
  · rw [Stateful.bind_of_ok ran]
    rcases behind between middle (told ++ courseTidings course) passed.others with
      ⟨course', later, next, ran', passed'⟩ |
      ⟨course', failed, cause, events, later, next, ran', stopped⟩
    · refine .inl ⟨course ++ course', later, next, ?_, passed.append passed' disjoint⟩
      rw [ran', courseTidings_append, List.append_assoc]
    · obtain ⟨others, order⟩ := stopped.order
      have among : failed ∈ second := by simp [order]
      refine .inr ⟨course ++ course', failed, cause, events, later, next, ?_,
        .behind passed stopped disjoint (apart failed among)⟩
      rw [ran', courseTidings_append, List.append_assoc, List.append_assoc]
  · rw [Stateful.bind_of_error ran]
    exact .inr ⟨course, failed, cause, events, later, next, rfl, stopped.append second⟩

/-- The visit of a node that is not skipped: a check, the visits of the children, and the mark. -/
theorem narrateVisit_ends {id : NodeId} {node : Node (Detector σ κ)} {below : List NodeId}
    {depth : Nat} (found : tree.node? id = some node) (here : now.node? id = some node)
    (awake : node.payload.mode.isSkipped = false)
    (children : ∀ between middle told,
      (∀ other, other ≠ id → between.node? other = now.node? other) →
      Ends host purpose tree below middle between told
        (narrateEach (narrateVisit host purpose depth) node.children ((middle, between), told)))
    (outside : id ∉ below) (lower : ∀ other ∈ below, Below tree other id) (state : σ)
    (told : Tidings) :
    Ends host purpose tree (id :: below) state now told
      (narrateVisit host purpose (depth + 1) id ((state, now), told)) := by
  rw [narrateVisit, Stateful.bind_of_ok (quiet_read (mode_of_some here state) told), awake]
  simp only [Bool.false_eq_true, if_false]
  rcases ran : node.payload.narrate host purpose state with ⟨⟨⟨result, detector⟩, events⟩, middle⟩
  have checked := narrateNode_of_some here ran told
  have elsewhere (other : NodeId) (apart : other ≠ id) :
      (Forest.modify now id fun old => { old with payload := detector }).node? other =
        now.node? other := by
    rw [Forest.node?_modify, if_neg apart]
  cases result with
  | error cause =>
    rw [Stateful.bind_of_error checked]
    exact .inr ⟨[], id, cause, events, middle, _, rfl, .first found here ran below⟩
  | ok total =>
    have held := Forest.node?_modify_of_some here fun old => { old with payload := detector }
    rw [Stateful.bind_of_ok checked,
      Stateful.bind_of_ok (quiet_read (children_of_some held middle) _)]
    rcases children _ middle (told ++ events.map fun event => (id, event)) elsewhere with
      ⟨course, later, between, ran', passed⟩ |
      ⟨course, failed, cause, more, later, next, ran', stopped⟩
    · have still := (passed.others id outside).trans held
      refine .inl ⟨{ id, detector, events } :: course, later, _, ?_,
        passed.enclose found here ran outside⟩
      rw [Stateful.bind_of_ok ran', ToldM.quiet, mark_of_some still, List.append_assoc]
      rfl
    · refine .inr ⟨{ id, detector, events } :: course, failed, cause, more, later, next, ?_,
        stopped.enclose found here ran outside lower⟩
      rw [Stateful.bind_of_error ran', List.append_assoc]
      simp only [courseTidings, List.flatMap_cons, Inspection.tidings, List.append_assoc]

/-- Visits of subtrees that have nothing in common and that nothing has touched so far check the nodes
on the way one after the other. -/
theorem narrateEach_ends (linked : Linked tree []) {ids : List NodeId}
    (walk : Walk tree ids visited) {depth : Nat} (deep : ∀ id ∈ ids, Deep tree depth id)
    (apart : ids.Pairwise (Apart tree))
    (untouched : ∀ top ∈ ids, ∀ id, Within tree id top → now.node? id = tree.node? id)
    (state : σ) (told : Tidings) :
    Ends host purpose tree visited state now told
      (narrateEach (narrateVisit host purpose depth) ids ((state, now), told)) := by
  induction walk generalizing depth now state told with
  | done =>
    refine .inl ⟨[], state, now, ?_, .nil tree now state⟩
    rw [courseTidings, List.flatMap_nil, List.append_nil]
    rfl
  | @skip id ids rest node found skipped _ ih =>
    obtain ⟨here, others⟩ := List.forall_mem_cons.mp untouched
    obtain ⟨deepHere, deep⟩ := List.forall_mem_cons.mp deep
    obtain ⟨depth, rfl⟩ := deepHere.exists_succ
    have found' := (here id (.refl tree id)).trans found
    have visit : narrateVisit host purpose (depth + 1) id ((state, now), told) =
        (.ok (), ((state, now), told)) := by
      rw [narrateVisit, Stateful.bind_of_ok (quiet_read (mode_of_some found' state) told),
        if_pos skipped]
      rfl
    rw [narrateEach, Stateful.bind_of_ok visit]
    exact ih deep (List.pairwise_cons.mp apart).2 others state told
  | @enter id ids below rest node found awake children walk ihBelow ihRest =>
    obtain ⟨here, others⟩ := List.forall_mem_cons.mp untouched
    obtain ⟨deepHere, deep⟩ := List.forall_mem_cons.mp deep
    obtain ⟨depth, rfl⟩ := deepHere.exists_succ
    obtain ⟨apartHere, apart⟩ := List.pairwise_cons.mp apart
    have listed := Forest.childrenOf_of_some found
    have lower := children.beneath linked found
    have within : ∀ other ∈ id :: below, Within tree other id :=
      List.forall_mem_cons.mpr ⟨.refl tree id, fun other member => (lower other member).within⟩
    have elsewhere : ∀ other ∈ rest, ¬ Within tree other id := by
      intro other member inside
      obtain ⟨top, among, inside'⟩ := walk.within linked other member
      exact apartHere top among other inside inside'
    rw [narrateEach, ← List.cons_append]
    refine .append ?_ (fun between middle told same => ?_) ?_ ?_
    · refine narrateVisit_ends found ((here id (.refl tree id)).trans found) awake ?_
        (fun member => linked.acyclic id (lower id member)) lower state told
      intro between middle told same
      refine ihBelow (listed ▸ deepHere) (listed ▸ linked.pairwise_apart id) ?_ middle told
      intro child member other inside
      have below := linked.below_of_child (listed ▸ member) inside
      have apart : other ≠ id := fun same => linked.acyclic id (same ▸ below)
      exact (same other apart).trans (here other below.within)
    · refine ihRest deep apart (fun top member other inside => ?_) middle told
      have outside : other ∉ id :: below := fun visited =>
        apartHere top member other (within other visited) inside
      exact (same other outside).trans (others top member other inside)
    · exact fun other member member' => elsewhere other member' (within other member)
    · intro failed member other visited below
      exact elsewhere failed member (below.within.trans (within other visited))

end ChangeWatch.Tree
