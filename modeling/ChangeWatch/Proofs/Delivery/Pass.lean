import ChangeWatch.Proofs.Delivery.Check
import ChangeWatch.Proofs.Nodes
import ChangeWatch.Proofs.Recording
import ChangeWatch.Tree.Pass

/-!
Passes that tell what happens in the detectors that they visit. A pass keeps every listener up to
date unless a check drops a change, and such a check is the last thing that happens in a pass.
-/
namespace ChangeWatch

/-- What happens in the detectors of a tree, in order. -/
abbrev Tidings := List (NodeId × Event)

/-- The changes that are dropped anywhere in a tree. -/
def Tidings.lost (tidings : Tidings) : List (Nat × ChangeRecord) :=
  tidings.flatMap fun (_, event) => event.lost

theorem Tidings.lost_of_node (id : NodeId) (events : List Event) :
    lost (events.map fun event => (id, event)) = Event.lostIn events := by
  simp only [lost, Event.lostIn, List.flatMap_map]

/-- An operation on a tree that tells what happens. -/
abbrev ToldM (σ κ : Type) := ExceptT DetectorError (StateM ((σ × Tree σ κ) × Tidings))

/-- An operation with nothing to tell. -/
def ToldM.quiet (plain : TreeM σ κ α) : ToldM σ κ α := fun (world, told) =>
  let (result, world) := plain world
  (result, (world, told))

namespace Tree

variable (host : Host σ) (purpose : Purpose)

/-- A check of one detector that tells what it does. -/
def narrateNode (id : NodeId) : ToldM σ κ Unit := fun ((state, tree), told) =>
  match Forest.node tree id with
  | .error cause => (.error (.forest cause), ((state, tree), told))
  | .ok node =>
    let (((result, detector), events), state) := node.payload.narrate host purpose state
    (match result with
      | .ok _ => .ok ()
      | .error cause => .error (.check cause),
      ((state, Forest.modify tree id fun node => { node with payload := detector }),
        told ++ events.map fun event => (id, event)))

def narrateEach (narrate : NodeId → ToldM σ κ Unit) : List NodeId → ToldM σ κ Unit
  | [] => return ()
  | id :: ids => do
    narrate id
    narrateEach narrate ids

/-- A visit that tells what happens. -/
def narrateVisit : Nat → NodeId → ToldM σ κ Unit
  | 0, _ => return ()
  | depth + 1, id => do
    if (← .quiet (mode id)).isSkipped then return ()
    else
      narrateNode host purpose id
      narrateEach (narrateVisit depth) (← .quiet (children id))
      .quiet do setMode id (← mode id).afterVisit

/-- What happens in a pass. -/
def tidings (id : NodeId) (world : σ × Tree σ κ) : Tidings :=
  (narrateVisit host purpose (world.2.cells.length + 1) id (world, [])).2.2

end Tree

open Stateful (Refines Tells)

theorem ToldM.quiet_tells (plain : TreeM σ κ α) : Tells (quiet plain) plain :=
  fun _ told => ⟨told, rfl⟩

namespace Tree

variable {host : Host σ} {purpose : Purpose}

theorem narrateNode_tells (host : Host σ) (purpose : Purpose) (id : NodeId) :
    Tells (narrateNode (κ := κ) host purpose id) (checkNode host purpose id) := by
  rintro ⟨state, tree⟩ told
  rw [checkNode, Stateful.bind_apply, narrateNode, TreeM.onDetector]
  cases found : Forest.node tree id with
  | error cause => exact ⟨told, rfl⟩
  | ok node =>
    simp only [Detector.narrate_erases]
    rcases node.payload.narrate host purpose state with ⟨⟨⟨result, detector⟩, events⟩, after⟩
    cases result <;> exact ⟨_, rfl⟩

theorem narrateEach_tells {narrate : NodeId → ToldM σ κ Unit} {visit : NodeId → TreeM σ κ Unit}
    (each : ∀ id, Tells (narrate id) (visit id)) (ids : List NodeId) :
    Tells (narrateEach narrate ids) (visitEach visit ids) := by
  induction ids with
  | nil => exact .pure ()
  | cons id ids ih => exact .bind (each id) fun _ => ih

/-- Telling changes nothing else about a visit. -/
theorem narrateVisit_tells (host : Host σ) (purpose : Purpose) (depth : Nat) (id : NodeId) :
    Tells (narrateVisit (κ := κ) host purpose depth id) (visit host purpose depth id) := by
  induction depth generalizing id with
  | zero => exact .pure ()
  | succ depth ih =>
    refine .bind (ToldM.quiet_tells _) fun current => ?_
    split
    · exact .pure ()
    · refine .bind (narrateNode_tells host purpose id) fun _ => ?_
      refine .bind (ToldM.quiet_tells _) fun below => ?_
      exact .bind (narrateEach_tells ih below) fun _ => ToldM.quiet_tells _

theorem narrate_pass (host : Host σ) (purpose : Purpose) (id : NodeId) (world : σ × Tree σ κ) :
    narrateVisit host purpose (world.2.cells.length + 1) id (world, []) =
      ((pass host purpose id world).1,
        ((pass host purpose id world).2, tidings host purpose id world)) := by
  obtain ⟨later, told⟩ := narrateVisit_tells host purpose (world.2.cells.length + 1) id world []
  rw [tidings, told]
  rfl

end Tree

namespace Forest

/-- A forest of the same shape, with payloads made from handles and payloads. -/
def mapPayloads (f : NodeId → α → β) (forest : Forest α) : Forest β where
  cells := forest.cells.mapIdx fun index cell =>
    { generation := cell.generation
      node := cell.node.map fun node =>
        { payload := f { index, generation := cell.generation } node.payload
          parent := node.parent
          children := node.children } }
  free := forest.free

variable {forest : Forest α} {f : NodeId → α → β}

theorem length_mapPayloads : (forest.mapPayloads f).cells.length = forest.cells.length :=
  List.length_mapIdx

theorem node?_mapPayloads (id : NodeId) : (forest.mapPayloads f).node? id =
    (forest.node? id).map fun node =>
      { payload := f id node.payload, parent := node.parent, children := node.children } := by
  simp only [node?, mapPayloads, List.getElem?_mapIdx]
  cases forest.cells[id.index]? with
  | none => rfl
  | some cell =>
    by_cases current : cell.generation = id.generation
    · simp [current]
    · simp [current]

theorem modify_mapPayloads (id : NodeId) (payload : α) :
    (forest.mapPayloads f).modify id (fun node => { node with payload := f id payload }) =
      (forest.modify id fun node => { node with payload }).mapPayloads f := by
  refine congrArg (fun cells => ({ cells, free := forest.free } : Forest β)) ?_
  refine List.ext_getElem? fun index => ?_
  simp only [mapPayloads, modify, List.getElem?_mapIdx, List.getElem?_modify]
  cases forest.cells[index]? with
  | none => rfl
  | some cell =>
    by_cases here : id.index = index
    · subst here
      by_cases current : cell.generation = id.generation
      · simp only [Option.map_eq_map, Option.map_some, current, if_true, Option.map_map]
        rfl
      · simp [current]
    · simp [here]

end Forest

/-- Calls of dispatchers, with the handles of their detectors. -/
abbrev Calls := List (NodeId × Notification)

/-- The calls of dispatchers that are told of. -/
def Tidings.calls (tidings : Tidings) : Calls :=
  tidings.flatMap fun (id, event) => event.calls.map fun call => (id, call)

theorem Tidings.calls_append (tidings later : Tidings) :
    calls (tidings ++ later) = tidings.calls ++ later.calls := List.flatMap_append

theorem Tidings.calls_eq_nil {tidings : Tidings} (silent : ∀ told ∈ tidings, told.2.calls = []) :
    tidings.calls = [] :=
  List.flatMap_eq_nil_iff.mpr fun told member => List.map_eq_nil_iff.mpr (silent told member)

theorem Tidings.calls_of_node (id : NodeId) (events : List Event) :
    calls (events.map fun event => (id, event)) = Event.notes (fun call => (id, call)) events := by
  simp only [calls, Event.notes, List.flatMap_map, List.map_flatMap]

namespace Tree

/-- A tree with a recorder at every dispatcher. -/
def recorded (tree : Tree σ κ) : Tree (σ × Calls) κ :=
  Forest.mapPayloads (fun id => Detector.recorded fun call => (id, call)) tree

theorem node?_recorded (tree : Tree σ κ) (id : NodeId) :
    Forest.node? tree.recorded id = (Forest.node? tree id).map fun node =>
      { payload := node.payload.recorded fun call => (id, call)
        parent := node.parent
        children := node.children } :=
  Forest.node?_mapPayloads id

theorem modify_recorded (tree : Tree σ κ) (id : NodeId) (detector : Detector σ κ) :
    (Forest.modify tree.recorded id fun node =>
        { node with payload := detector.recorded fun call => (id, call) }) =
      recorded (Forest.modify tree id fun node => { node with payload := detector }) :=
  Forest.modify_mapPayloads id detector

/-- A tree with recorders and its application, with what is written down so far. -/
def recording (log : Calls) (world : σ × Tree σ κ) : (σ × Calls) × Tree (σ × Calls) κ :=
  ((world.1, log), world.2.recorded)

end Tree

/-- Recorders do not see an operation, and it does not see them. -/
def TreeM.Unrecorded (recorded : TreeM (σ × Calls) κ α) (plain : TreeM σ κ α) : Prop :=
  ∀ log, Refines (fun world plain => world = Tree.recording log plain) Eq recorded plain

/-- Recorders write down the calls that an operation tells of. -/
def ToldM.Recorded (recorded : TreeM (σ × Calls) κ α) (told : ToldM σ κ α) : Prop :=
  ∀ log, Refines (fun world told => world = Tree.recording (log ++ told.2.calls) told.1) Eq
    recorded told

namespace TreeM.Unrecorded

theorem bind {recorded : TreeM (σ × Calls) κ α} {plain : TreeM σ κ α}
    {next : α → TreeM (σ × Calls) κ β} {plainNext : α → TreeM σ κ β}
    (first : Unrecorded recorded plain) (others : ∀ value, Unrecorded (next value) (plainNext value)) :
    Unrecorded (recorded >>= next) (plain >>= plainNext) :=
  fun log => .bind (first log) fun value _ same => same ▸ others value log

theorem pure (value : α) :
    Unrecorded (pure value : TreeM (σ × Calls) κ α) (pure value : TreeM σ κ α) :=
  fun _ => .pure rfl

/-- An operation that only reads a node, and not its detector. -/
theorem of_read {id : NodeId} {part : Node (Detector (σ × Calls) κ) → α}
    {plainPart : Node (Detector σ κ) → α}
    (same : ∀ payload plain parent children,
      part { payload, parent, children } = plainPart { payload := plain, parent, children }) :
    Unrecorded (.restructure fun tree => (Forest.node tree id).map fun node => (part node, tree))
      (.restructure fun tree => (Forest.node tree id).map fun node => (plainPart node, tree)) := by
  rintro log _ ⟨state, tree⟩ rfl
  simp only [restructure, Tree.recording, Forest.node, Tree.node?_recorded]
  cases Forest.node? tree id with
  | none => exact ⟨.error _, rfl⟩
  | some node => exact ⟨.ok (same _ _ _ _), rfl⟩

theorem onDetector {action : Detector (σ × Calls) κ → StateM (σ × Calls) (α × Detector (σ × Calls) κ)}
    {plain : Detector σ κ → StateM σ (α × Detector σ κ)} {id : NodeId}
    (acts : ∀ (detector : Detector σ κ) state log,
      let note call := (id, call)
      action (detector.recorded note) (state, log) =
        (((plain detector state).1.1, (plain detector state).1.2.recorded note),
          ((plain detector state).2, log))) :
    Unrecorded (.onDetector id action) (.onDetector id plain) := by
  rintro log _ ⟨state, tree⟩ rfl
  have located := Tree.node?_recorded tree id
  cases found : Forest.node? tree id with
  | none =>
    rw [found] at located
    rw [onDetector_of_none found, Tree.recording, onDetector_of_none located]
    exact ⟨.error _, rfl⟩
  | some node =>
    rw [found] at located
    rw [onDetector_of_some found, Tree.recording, onDetector_of_some located]
    simp only [acts]
    exact ⟨.ok rfl, congrArg (Prod.mk _) (Tree.modify_recorded tree id _)⟩

theorem mode (id : NodeId) : Unrecorded (κ := κ) (σ := σ) (Tree.mode id) (Tree.mode id) :=
  onDetector fun _ _ _ => rfl

theorem setMode (id : NodeId) (mode : Mode) :
    Unrecorded (κ := κ) (σ := σ) (Tree.setMode id mode) (Tree.setMode id mode) :=
  onDetector fun _ _ _ => rfl

theorem hydrate (id : NodeId) (context : Value) (locals : Locals) :
    Unrecorded (κ := κ) (σ := σ) (Tree.hydrate id context locals) (Tree.hydrate id context locals) :=
  onDetector fun _ _ _ => rfl

theorem dehydrate (id : NodeId) :
    Unrecorded (κ := κ) (σ := σ) (Tree.dehydrate id) (Tree.dehydrate id) := by
  refine onDetector fun detector state log => ?_
  have ran := congrFun (detector.dehydrate_recorded fun call => (id, call)) (state, log)
  simp only [Bind.bind, StateT.bind]
  rw [ran]
  rfl

theorem children (id : NodeId) :
    Unrecorded (κ := κ) (σ := σ) (Tree.children id) (Tree.children id) := of_read fun _ _ _ _ => rfl

theorem parent (id : NodeId) :
    Unrecorded (κ := κ) (σ := σ) (Tree.parent id) (Tree.parent id) := of_read fun _ _ _ _ => rfl

theorem markUpward (steps : Nat) (id : Option NodeId) :
    Unrecorded (κ := κ) (σ := σ) (Tree.markUpward steps id) (Tree.markUpward steps id) := by
  induction steps generalizing id with
  | zero => cases id <;> exact pure ()
  | succ steps ih =>
    cases id with
    | none => exact pure ()
    | some id =>
      refine bind (mode id) fun current => ?_
      split
      · exact pure ()
      · split
        · exact bind (setMode id .checkOnce) fun _ => bind (parent id) fun above => ih above
        · exact bind (parent id) fun above => ih above

theorem markPathToRoot (id : NodeId) : Unrecorded (κ := κ) (σ := σ)
    (Tree.markPathToRootAsCheckOnce id) (Tree.markPathToRootAsCheckOnce id) := by
  rintro log _ world rfl
  have marked := markUpward (world.2.cells.length + 1) (some id) log _ world rfl
  have steps : (Tree.recording log world).2.cells.length = world.2.cells.length :=
    Forest.length_mapPayloads
  rw [Tree.markPathToRootAsCheckOnce, Tree.markPathToRootAsCheckOnce, steps]
  exact marked

end TreeM.Unrecorded

namespace ToldM.Recorded

theorem quiet {recorded : TreeM (σ × Calls) κ α} {plain : TreeM σ κ α}
    (unrecorded : recorded.Unrecorded plain) : Recorded recorded (quiet plain) :=
  fun log world told same => unrecorded (log ++ told.2.calls) world told.1 same

theorem bind {recorded : TreeM (σ × Calls) κ α} {told : ToldM σ κ α}
    {next : α → TreeM (σ × Calls) κ β} {toldNext : α → ToldM σ κ β}
    (first : Recorded recorded told) (others : ∀ value, Recorded (next value) (toldNext value)) :
    Recorded (recorded >>= next) (told >>= toldNext) :=
  fun log => .bind (first log) fun value _ same => same ▸ others value log

theorem pure (value : α) :
    Recorded (pure value : TreeM (σ × Calls) κ α) (pure value : ToldM σ κ α) :=
  fun _ => .pure rfl

variable (host : Host σ) (purpose : Purpose)

theorem checkNode (id : NodeId) : Recorded (κ := κ) (Tree.checkNode host.beside purpose id)
    (Tree.narrateNode host purpose id) := by
  rintro log _ ⟨⟨state, tree⟩, told⟩ rfl
  have located := Tree.node?_recorded tree id
  rw [Tree.checkNode, Stateful.bind_apply, Tree.narrateNode, Tree.recording]
  cases found : Forest.node? tree id with
  | none =>
    rw [found] at located
    simp only [TreeM.onDetector_of_none located, Forest.node, found]
    exact ⟨.error _, rfl⟩
  | some node =>
    rw [found] at located
    simp only [TreeM.onDetector_of_some located, Forest.node, found, Detector.check_recorded]
    rcases node.payload.narrate host purpose state with ⟨⟨⟨result, detector⟩, events⟩, after⟩
    have written : log ++ told.calls ++ Event.notes (fun call => (id, call)) events =
        log ++ (told ++ events.map fun event => (id, event) : Tidings).calls := by
      rw [Tidings.calls_append, Tidings.calls_of_node, List.append_assoc]
    simp only [written, Tree.modify_recorded]
    cases result with
    | error cause => exact ⟨.error _, rfl⟩
    | ok count => exact ⟨.ok rfl, rfl⟩

theorem visitEach {visit : NodeId → TreeM (σ × Calls) κ Unit} {narrate : NodeId → ToldM σ κ Unit}
    (each : ∀ id, Recorded (visit id) (narrate id)) (ids : List NodeId) :
    Recorded (Tree.visitEach visit ids) (Tree.narrateEach narrate ids) := by
  induction ids with
  | nil => exact pure ()
  | cons id ids ih => exact bind (each id) fun _ => ih

theorem visit (depth : Nat) (id : NodeId) : Recorded (κ := κ) (Tree.visit host.beside purpose depth id)
    (Tree.narrateVisit host purpose depth id) := by
  induction depth generalizing id with
  | zero => exact pure ()
  | succ depth ih =>
    refine bind (quiet (.mode id)) fun current => ?_
    split
    · exact pure ()
    · refine bind (checkNode host purpose id) fun _ => bind (quiet (.children id)) fun below => ?_
      refine bind (visitEach ih below) fun _ => quiet (.bind (.mode id) fun current => ?_)
      exact .setMode id current.afterVisit

end ToldM.Recorded

/-- What recorders write down of a pass are the calls that are told of it, and nothing else is
different. -/
theorem Tree.pass_recording (host : Host σ) (purpose : Purpose) (id : NodeId) (log : Calls)
    (world : σ × Tree σ κ) :
    pass host.beside purpose id (recording log world) =
      let ran := pass host purpose id world
      (ran.1, recording (log ++ (tidings host purpose id world).calls) ran.2) := by
  obtain ⟨results, worlds⟩ := ToldM.Recorded.visit host purpose (world.2.cells.length + 1) id log
    (recording log world) (world, []) (congrArg (recording · world) (List.append_nil log).symm)
  have depth : (recording log world).2.cells.length = world.2.cells.length :=
    Forest.length_mapPayloads
  rw [narrate_pass] at results worlds
  rw [pass, depth]
  exact Prod.ext results.eq worlds

/-- What recorders at all dispatchers of a tree write down of a pass. -/
def Tree.calls (host : Host σ) (purpose : Purpose) (id : NodeId) (world : σ × Tree σ κ) : Calls :=
  (pass host.beside purpose id (recording [] world)).2.1.2

theorem Tree.calls_eq (host : Host σ) (purpose : Purpose) (id : NodeId) (world : σ × Tree σ κ) :
    calls host purpose id world = (tidings host purpose id world).calls := by
  rw [calls, pass_recording]
  rfl

/-- What the listeners of a tree have heard of last. -/
abbrev Views := NodeId → View

namespace Views

def put (views : Views) (id : NodeId) (view : View) : Views := fun other =>
  if other = id then view else views other

theorem put_self (views : Views) (id : NodeId) : views.put id (views id) = views := by
  funext other
  by_cases same : other = id <;> simp [put, same]

/-- What is known after some tidings. -/
def hear (views : Views) : Tidings → Views
  | [] => views
  | (id, event) :: tidings => hear (views.put id ((views id).hear event.heard)) tidings

theorem hear_append (views : Views) (tidings later : Tidings) :
    views.hear (tidings ++ later) = (views.hear tidings).hear later := by
  induction tidings generalizing views with
  | nil => rfl
  | cons first tidings ih => exact ih _

/-- The tidings of one detector reach its listener only. -/
theorem hear_of_node (views : Views) (id : NodeId) (events : List Event) :
    views.hear (events.map fun event => (id, event)) =
      views.put id ((views id).hear (Event.heardIn events)) := by
  induction events generalizing views with
  | nil => exact (views.put_self id).symm
  | cons event events ih =>
    funext other
    rw [List.map_cons, hear, ih]
    by_cases same : other = id <;> simp [put, same, Event.heardIn, View.hear_append]

/-- All listeners know what their detectors remember. -/
def Show (views : Views) (tree : Tree σ κ) : Prop :=
  ∀ id node, tree.node? id = some node → (views id).Shows node.payload.bindings

/-- The listeners of all detectors with a context know what is remembered there. -/
def InSync (views : Views) (tree : Tree σ κ) : Prop :=
  ∀ id node, tree.node? id = some node → node.payload.isHydrated →
    (views id).Shows node.payload.bindings

theorem Show.inSync {views : Views} {tree : Tree σ κ} (known : views.Show tree) :
    views.InSync tree :=
  fun id node found _ => known id node found

end Views

/-- A change of one detector concerns its listener only. -/
theorem Views.Show.modify {views : Views} {tree : Tree σ κ} {id : NodeId}
    {node : Node (Detector σ κ)} (known : views.Show tree) (found : tree.node? id = some node)
    {detector : Detector σ κ} {view : View} (shows : view.Shows detector.bindings) :
    (views.put id view).Show (Forest.modify tree id fun node =>
      { node with payload := detector }) := by
  intro other changed located
  rw [Forest.node?_modify] at located
  by_cases same : other = id
  · simp only [same, if_true, found, Option.map_some] at located
    cases located
    simpa only [Views.put, same, if_true] using shows
  · simp only [same, if_false] at located
    simpa only [Views.put, same, if_false] using known other changed located

/-- An operation after which the listeners know what they knew before. -/
def TreeM.Steady (plain : TreeM σ κ α) : Prop :=
  ∀ (views : Views) world, views.Show world.2 → views.Show (plain world).2.2

/-- An operation that keeps listeners up to date, unless it drops a change and fails at once. -/
def ToldM.Faithful (operation : ToldM σ κ α) : Prop :=
  ∀ (views : Views) world told, views.Show world.2 →
    ∃ tidings, (operation (world, told)).2.2 = told ++ tidings ∧
      (tidings.lost = [] → (views.hear tidings).Show (operation (world, told)).2.1.2) ∧
      (tidings.lost ≠ [] → ¬ (views.hear tidings).InSync (operation (world, told)).2.1.2 ∧
        ∃ error, (operation (world, told)).1 = .error error)

namespace TreeM.Steady

theorem pure (value : α) : Steady (pure value : TreeM σ κ α) := fun _ _ known => known

theorem bind {first : TreeM σ κ α} {next : α → TreeM σ κ β} (before : Steady first)
    (after : ∀ value, Steady (next value)) : Steady (first >>= next) := by
  intro views world known
  have between := before views world known
  rw [Stateful.bind_apply]
  cases ran : first world with
  | mk result middle =>
    rw [ran] at between
    cases result with
    | error cause => exact between
    | ok value => exact after value views middle between

/-- An operation that does not change the forest. -/
theorem of_read (read : Tree σ κ → Except ForestError β) (part : β → α) :
    Steady (.restructure fun tree => (read tree).map fun value => (part value, tree)) := by
  intro views world known
  simp only [restructure]
  cases read world.2 <;> exact known

/-- An operation on a detector that keeps what it remembers. -/
theorem onDetector {id : NodeId} {action : Detector σ κ → StateM σ (α × Detector σ κ)}
    (keeps : ∀ detector state, (action detector state).1.2.bindings = detector.bindings) :
    Steady (onDetector id action) := by
  intro views ⟨state, tree⟩ known
  cases found : tree.node? id with
  | none =>
    rw [onDetector_of_none found]
    exact known
  | some node =>
    rw [onDetector_of_some found]
    have shows := known id node found
    rw [← keeps node.payload state] at shows
    have changed := known.modify found shows
    rwa [Views.put_self] at changed

end TreeM.Steady

namespace ToldM.Faithful

theorem quiet {plain : TreeM σ κ α} (steady : plain.Steady) : Faithful (quiet plain) := by
  intro views world told known
  refine ⟨[], (List.append_nil told).symm, fun _ => steady views world known, ?_⟩
  exact fun lost => absurd rfl lost

theorem pure (value : α) : Faithful (pure value : ToldM σ κ α) := quiet (.pure value)

/-- A loss in the first part ends a sequence. -/
theorem bind {first : ToldM σ κ α} {next : α → ToldM σ κ β} (before : Faithful first)
    (after : ∀ value, Faithful (next value)) : Faithful (first >>= next) := by
  intro views world told known
  obtain ⟨tidings, tells, keeps, falls⟩ := before views world told known
  rw [Stateful.bind_apply]
  cases ran : first (world, told) with
  | mk result middle =>
    obtain ⟨between, telling⟩ := middle
    rw [ran] at tells keeps falls
    cases result with
    | error cause => exact ⟨tidings, tells, keeps, fun lost => ⟨(falls lost).1, cause, rfl⟩⟩
    | ok value =>
      have kept : tidings.lost = [] := by
        cases missed : tidings.lost with
        | nil => rfl
        | cons change changes =>
          obtain ⟨_, error, failed⟩ := falls (by simp [missed])
          cases failed
      obtain ⟨later, tellsLater, keepsLater, fallsLater⟩ :=
        after value (views.hear tidings) between telling (keeps kept)
      have lost : (tidings ++ later : Tidings).lost = later.lost := by
        simp only [Tidings.lost, List.flatMap_append] at kept ⊢
        rw [kept, List.nil_append]
      refine ⟨tidings ++ later, ?_, ?_, ?_⟩
      · rw [← List.append_assoc, ← tells]
        exact tellsLater
      · rw [lost, Views.hear_append]
        exact keepsLater
      · rw [lost, Views.hear_append]
        exact fallsLater

variable (host : Host σ) (purpose : Purpose)

theorem narrateNode (id : NodeId) : Faithful (Tree.narrateNode (κ := κ) host purpose id) := by
  intro views ⟨state, tree⟩ told known
  rw [Tree.narrateNode]
  cases found : Forest.node tree id with
  | error cause =>
    have refused : Faithful (ToldM.quiet (throw (.forest cause) : TreeM σ κ Unit)) :=
      quiet fun _ _ shown => shown
    exact refused views (state, tree) told known
  | ok node =>
    have located := Forest.node_eq_ok.mp found
    obtain ⟨keeps, falls⟩ := Detector.narrate_shows host purpose (known id node located) state
    rcases ran : node.payload.narrate host purpose state with
      ⟨⟨⟨result, detector⟩, events⟩, after⟩
    simp only [ran] at keeps falls ⊢
    refine ⟨_, rfl, ?_, ?_⟩
    · intro kept
      rw [Tidings.lost_of_node] at kept
      rw [Views.hear_of_node]
      exact known.modify located (keeps kept)
    · intro lost
      rw [Tidings.lost_of_node] at lost
      obtain ⟨hydrated, behind, error, rfl⟩ := falls lost
      rw [Views.hear_of_node]
      refine ⟨fun synced => behind ?_, .check error, rfl⟩
      have changed : (Forest.modify tree id fun node => { node with payload := detector }).node? id
          = some { node with payload := detector } := by
        rw [Forest.node?_modify, if_pos rfl, located, Option.map_some]
      simpa only [Views.put, if_true] using synced id _ changed hydrated

theorem narrateEach {narrate : NodeId → ToldM σ κ Unit} (each : ∀ id, Faithful (narrate id))
    (ids : List NodeId) : Faithful (Tree.narrateEach narrate ids) := by
  induction ids with
  | nil => exact pure ()
  | cons id ids ih => exact bind (each id) fun _ => ih

theorem narrateVisit (depth : Nat) (id : NodeId) :
    Faithful (Tree.narrateVisit (κ := κ) host purpose depth id) := by
  have mode_steady (id : NodeId) : (Tree.mode id : TreeM σ κ Mode).Steady :=
    .onDetector fun _ _ => rfl
  induction depth generalizing id with
  | zero => exact pure ()
  | succ depth ih =>
    refine bind (quiet (mode_steady id)) fun current => ?_
    split
    · exact pure ()
    · refine bind (narrateNode host purpose id) fun _ => ?_
      refine bind (quiet (.of_read _ _)) fun below => bind (narrateEach ih below) fun _ => ?_
      exact quiet (.bind (mode_steady id) fun _ => .onDetector fun _ _ => rfl)

end ToldM.Faithful
end ChangeWatch
