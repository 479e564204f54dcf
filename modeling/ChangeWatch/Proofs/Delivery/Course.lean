import ChangeWatch.Proofs.Delivery.Pass
import ChangeWatch.Proofs.Grouping
import ChangeWatch.Proofs.Lineage

/-!
Listeners over a whole course of operations. The application may change at will, contexts come and
go, and passes may fail for any reason. What listeners hear is what recorders at their dispatchers write
down. A listener falls behind exactly when a pass drops a change: it is remembered, so that no later pass
reports it.
-/
namespace ChangeWatch

open Stateful (Along Refines)

/-- What may be done with a tree and its application. -/
inductive Call (σ : Type) where
  | mutate (change : σ → σ)
  | hydrate (id : NodeId) (context : Value) (locals : Locals)
  | dehydrate (id : NodeId)
  | setMode (id : NodeId) (mode : Mode)
  | markPathToRoot (id : NodeId)
  | detect (id : NodeId)
  | verify (id : NodeId)

namespace Call

def run (host : Host σ) (call : Call σ) (world : σ × Tree σ κ) : σ × Tree σ κ :=
  match call with
  | mutate change => (change world.1, world.2)
  | hydrate id context locals => (Tree.hydrate id context locals world).2
  | dehydrate id => (Tree.dehydrate id world).2
  | setMode id mode => (Tree.setMode id mode world).2
  | markPathToRoot id => (Tree.markPathToRootAsCheckOnce id world).2
  | detect id => (Tree.detectChanges host id world).2
  | verify id => (Tree.checkNoChanges host id world).2

/-- The same call with something beside the application. -/
def beside : Call σ → Call (σ × ρ)
  | mutate change => mutate fun world => (change world.1, world.2)
  | hydrate id context locals => hydrate id context locals
  | dehydrate id => dehydrate id
  | setMode id mode => setMode id mode
  | markPathToRoot id => markPathToRoot id
  | detect id => detect id
  | verify id => verify id

/-- What happens in the passes of a call. -/
def tidings (host : Host σ) (call : Call σ) (world : σ × Tree σ κ) : Tidings :=
  match call with
  | detect id => Tree.tidings host .detect id world
  | verify id => Tree.tidings host .verify id world
  | _ => []

/-- What recorders write down of a call are the calls of dispatchers that are told of it. -/
theorem run_recording (host : Host σ) (call : Call σ) (log : Calls) (world : σ × Tree σ κ) :
    call.beside.run host.beside (Tree.recording log world) =
      Tree.recording (log ++ (call.tidings host world).calls) (call.run host world) := by
  have unrecorded {recorded : TreeM (σ × Calls) κ Unit} {plain : TreeM σ κ Unit}
      (unrecorded : recorded.Unrecorded plain) : (recorded (Tree.recording log world)).2 =
        Tree.recording (log ++ []) (plain world).2 := by
    rw [List.append_nil]
    exact (unrecorded log _ world rfl).2
  cases call with
  | mutate change =>
    exact congrArg (Tree.recording · (run host (mutate change) world)) (List.append_nil log).symm
  | hydrate id context locals => exact unrecorded (.hydrate id context locals)
  | dehydrate id => exact unrecorded (.dehydrate id)
  | setMode id mode => exact unrecorded (.setMode id mode)
  | markPathToRoot id => exact unrecorded (.markPathToRoot id)
  | detect id => exact congrArg Prod.snd (Tree.pass_recording host .detect id log world)
  | verify id => exact congrArg Prod.snd (Tree.pass_recording host .verify id log world)

end Call

/-- An application and a tree, what listeners have heard of last since their detectors were made or
dehydrated, and everything that has happened in passes. -/
structure Course (σ κ : Type) where
  world : σ × Tree σ κ
  heard : Views := fun _ _ => .uninitialized
  told : Tidings := []

namespace Course

variable (host : Host σ)

def step (course : Course σ κ) (call : Call σ) : Course σ κ :=
  let tidings := call.tidings host course.world
  { world := call.run host course.world
    heard := match call with
      | .dehydrate id => course.heard.put id fun _ => .uninitialized
      | _ => course.heard.hear tidings
    told := course.told ++ tidings }

def run (calls : List (Call σ)) (course : Course σ κ) : Course σ κ := calls.foldl (step host) course

/-- Every remembered value of a detector with a context is the value that its listener has heard of
last, and none is remembered where nothing was heard. -/
def InSync (course : Course σ κ) : Prop := course.heard.InSync course.world.2

/-- The listeners know everything that is remembered, also where there is no context. -/
def Known (course : Course σ κ) : Prop := course.heard.Show course.world.2

end Course

theorem Binding.clear_previous (registry : Registry σ κ) (binding : Binding κ) (state : σ) :
    (binding.clear registry state).1.previous = .uninitialized := rfl

theorem Detector.clearAll_previous (registry : Registry σ κ) (bindings : List (Binding κ))
    (state : σ) :
    ∀ binding ∈ (clearAll registry bindings state).1, binding.previous = .uninitialized := by
  induction bindings generalizing state with
  | nil => exact fun binding member => absurd member (List.not_mem_nil)
  | cons first bindings ih =>
    intro binding member
    rcases List.mem_cons.mp member with rfl | member
    · exact Binding.clear_previous registry first state
    · exact ih _ binding member

/-- The name of the expression at a position of a detector. -/
def Tree.label? (tree : Tree σ κ) (id : NodeId) (position : Nat) : Option Label :=
  (Forest.payloadOf tree id).bind fun detector => detector.bindings[position]?.map Binding.id

/-- The changes that are told of as handed over, with the handles of their detectors. -/
def Tidings.heard (tidings : Tidings) : List (NodeId × Nat × ChangeRecord) :=
  tidings.flatMap fun (id, event) => event.heard.map fun change => (id, change)

theorem Tidings.heard_append (tidings later : Tidings) :
    heard (tidings ++ later) = tidings.heard ++ later.heard := List.flatMap_append

theorem Tidings.heard_of_node (id : NodeId) (events : List Event) :
    heard (events.map fun event => (id, event)) =
      (Event.heardIn events).map fun change => (id, change) := by
  simp only [heard, Event.heardIn, List.flatMap_map, List.map_flatMap]

/-- The changes in some calls, one by one, with the handles of their detectors. -/
def Calls.records (calls : Calls) : List (NodeId × ChangeRecord) :=
  calls.flatMap fun (id, call) => call.changes.map fun record => (id, record)

/-- The changes that are told of as handed over are those in the calls. -/
theorem Tidings.records_calls (tidings : Tidings) :
    tidings.calls.records = tidings.heard.map fun change => (change.1, change.2.2) := by
  simp only [Calls.records, calls, heard, List.flatMap_assoc, List.map_flatMap, List.map_map]
  refine congrArg (tidings.flatMap ·) (funext ?_)
  rintro ⟨id, event⟩
  cases event with
  | handed group changes =>
    simp only [Event.calls, Event.heard, List.map_cons, List.map_nil, List.flatMap_singleton,
      List.map_map]
    rfl
  | evaluated position result => rfl
  | dropped changes => rfl

theorem Tree.Kept.label? {host : Host σ} {first second : σ × Tree σ κ}
    (kept : Kept (Detector.Lineage host) first second) (id : NodeId) (position : Nat) :
    second.2.label? id position = first.2.label? id position := by
  have became := kept.detectors id
  simp only [Tree.label?]
  generalize first.2.payloadOf id = before at became ⊢
  generalize second.2.payloadOf id = later at became ⊢
  cases became with
  | none => rfl
  | some lineage =>
    have named (detector : Detector σ κ) : detector.bindings[position]?.map Binding.id =
        detector.blank.bindings[position]?.map Binding.id := by
      simp only [Detector.blank, List.getElem?_map, Option.map_map]
      rfl
    rw [Option.bind_some, Option.bind_some, named, lineage.blank, ← named]

/-- An operation keeps all nodes, and the changes that it tells of carry the names of the expressions at
their positions. -/
def ToldM.Named (host : Host σ) (operation : ToldM σ κ α) : Prop :=
  ∀ world told, Tree.Kept (Detector.Lineage host) world (operation (world, told)).2.1 ∧
    ∃ tidings, (operation (world, told)).2.2 = told ++ tidings ∧
      ∀ id position record, (id, position, record) ∈ tidings.heard →
        world.2.label? id position = some record.binding

namespace ToldM.Named

variable {host : Host σ}

theorem quiet {plain : TreeM σ κ α} (along : Along (Tree.Kept (Detector.Lineage host)) plain) :
    Named host (quiet plain) :=
  fun world told => ⟨along world, [], (List.append_nil told).symm, fun _ _ _ => nofun⟩

theorem pure (value : α) : Named host (pure value : ToldM σ κ α) := quiet (.pure value)

theorem bind {first : ToldM σ κ α} {next : α → ToldM σ κ β} (before : Named host first)
    (after : ∀ value, Named host (next value)) : Named host (first >>= next) := by
  intro world told
  obtain ⟨kept, tidings, tells, named⟩ := before world told
  rw [Stateful.bind_apply]
  cases ran : first (world, told) with
  | mk result middle =>
    obtain ⟨between, telling⟩ := middle
    rw [ran] at kept tells
    cases result with
    | error cause => exact ⟨kept, tidings, tells, named⟩
    | ok value =>
      obtain ⟨keptLater, later, tellsLater, namedLater⟩ := after value between telling
      refine ⟨Trans.trans kept keptLater, tidings ++ later, ?_, fun id position record heard => ?_⟩
      · rw [← List.append_assoc, ← show telling = told ++ tidings from tells]
        exact tellsLater
      · rw [Tidings.heard_append] at heard
        rcases List.mem_append.mp heard with heard | heard
        · exact named id position record heard
        · rw [← kept.label? id position]
          exact namedLater id position record heard

theorem narrateNode (host : Host σ) (purpose : Purpose) (id : NodeId) :
    Named host (Tree.narrateNode (κ := κ) host purpose id) := by
  rintro ⟨state, tree⟩ told
  have kept : Along (Tree.Kept (Detector.Lineage (κ := κ) host)) (Tree.checkNode host purpose id) :=
    Tree.checkNode_along (Tree.onDetector_kept id fun detector state =>
      .single (.check detector purpose state))
  obtain ⟨later, tells⟩ := Tree.narrateNode_tells host purpose id (state, tree) told
  refine ⟨by rw [tells]; exact kept (state, tree), ?_⟩
  rw [Tree.narrateNode]
  cases found : Forest.node tree id with
  | error cause =>
    refine ⟨[], (List.append_nil told).symm, ?_⟩
    intro _ _ _ heard
    exact absurd heard List.not_mem_nil
  | ok node =>
    refine ⟨_, rfl, fun other position record heard => ?_⟩
    rw [Tidings.heard_of_node] at heard
    obtain ⟨change, among, same⟩ := List.mem_map.mp heard
    cases same
    rw [Tree.label?, Forest.payloadOf, Forest.node_eq_ok.mp found]
    exact (node.payload.narrate_listed host purpose state).2 _ _ among

theorem narrateVisit (host : Host σ) (purpose : Purpose) (depth : Nat) (id : NodeId) :
    Named host (Tree.narrateVisit (κ := κ) host purpose depth id) := by
  have each {narrate : NodeId → ToldM σ κ Unit} (each : ∀ id, Named host (narrate id))
      (ids : List NodeId) : Named host (Tree.narrateEach narrate ids) := by
    induction ids with
    | nil => exact pure ()
    | cons id ids ih => exact bind (each id) fun _ => ih
  have setMode (id : NodeId) (mode : Mode) :
      Along (Tree.Kept (Detector.Lineage (κ := κ) host)) (Tree.setMode id mode) :=
    Tree.onDetector_kept id fun detector _ => .single (.quiet (.setMode detector mode))
  induction depth generalizing id with
  | zero => exact pure ()
  | succ depth ih =>
    refine bind (quiet (Tree.mode_along id)) fun current => ?_
    split
    · exact pure ()
    · refine bind (narrateNode host purpose id) fun _ => ?_
      refine bind (quiet (Tree.children_along id)) fun below => bind (each ih below) fun _ => ?_
      exact quiet (Tree.mark_along (setMode id))

end ToldM.Named

/-- A call keeps all nodes, and the changes that it tells of carry the names of the expressions at their
positions. -/
theorem Call.named (host : Host σ) (call : Call σ) (world : σ × Tree σ κ) :
    Tree.Kept (Detector.Lineage host) world (call.run host world) ∧
      ∀ id position record, (id, position, record) ∈ (call.tidings host world).heard →
        world.2.label? id position = some record.binding := by
  have setMode (id : NodeId) (mode : Mode) :
      Along (Tree.Kept (Detector.Lineage (κ := κ) host)) (Tree.setMode id mode) :=
    Tree.onDetector_kept id fun detector _ => .single (.quiet (.setMode detector mode))
  have pass (purpose : Purpose) (id : NodeId) :
      Tree.Kept (Detector.Lineage host) world (Tree.pass host purpose id world).2 ∧
        ∀ other position record,
          (other, position, record) ∈ (Tree.tidings host purpose id world).heard →
          world.2.label? other position = some record.binding := by
    obtain ⟨-, tidings, tells, named⟩ :=
      ToldM.Named.narrateVisit host purpose (world.2.cells.length + 1) id world []
    rw [show Tree.tidings host purpose id world = tidings from tells]
    exact ⟨Tree.pass_kept host purpose id world, named⟩
  cases call with
  | mutate change => exact ⟨.of_same rfl ⟨rfl, rfl⟩, fun _ _ _ => nofun⟩
  | hydrate id context locals =>
    refine ⟨?_, fun _ _ _ => nofun⟩
    exact Tree.onDetector_kept id
      (fun detector _ => .single (.quiet (.hydrate detector context locals))) world
  | dehydrate id =>
    refine ⟨?_, fun _ _ _ => nofun⟩
    exact Tree.onDetector_kept id
      (fun detector state => .single (.quiet (.dehydrate detector state))) world
  | setMode id mode => exact ⟨setMode id mode world, fun _ _ _ => nofun⟩
  | markPathToRoot id => exact ⟨Tree.markUpward_along setMode _ _ world, fun _ _ _ => nofun⟩
  | detect id => exact pass .detect id
  | verify id => exact pass .verify id

namespace TreeM.Steady

theorem mode (id : NodeId) : Steady (Tree.mode id : TreeM σ κ Mode) := .onDetector fun _ _ => rfl

theorem setMode (id : NodeId) (mode : Mode) : Steady (Tree.setMode id mode : TreeM σ κ Unit) :=
  .onDetector fun _ _ => rfl

theorem hydrate (id : NodeId) (context : Value) (locals : Locals) :
    Steady (Tree.hydrate id context locals : TreeM σ κ Unit) :=
  .onDetector fun _ _ => rfl

theorem markUpward (steps : Nat) (id : Option NodeId) :
    Steady (Tree.markUpward steps id : TreeM σ κ Unit) := by
  induction steps generalizing id with
  | zero => cases id <;> exact .pure ()
  | succ steps ih =>
    cases id with
    | none => exact .pure ()
    | some id =>
      refine .bind (mode id) fun current => ?_
      split
      · exact .pure ()
      · split
        · exact .bind (setMode id .checkOnce) fun _ => .bind (.of_read _ _) fun _ => ih _
        · exact .bind (.of_read _ _) fun _ => ih _

end TreeM.Steady

namespace Course

variable {host : Host σ} {course : Course σ κ}

theorem Known.inSync (known : course.Known) : course.InSync := Views.Show.inSync known

theorem Known.dehydrate (known : course.Known) (id : NodeId) :
    (course.step host (.dehydrate id)).Known := by
  obtain ⟨⟨state, tree⟩, heard, told⟩ := course
  simp only [step, Call.run, Course.Known, Tree.dehydrate]
  cases found : tree.node? id with
  | none =>
    rw [TreeM.onDetector_of_none found]
    intro other node located
    have apart : other ≠ id := by
      rintro rfl
      cases found.symm.trans located
    simpa only [Views.put, apart, if_false] using known other node located
  | some node =>
    rw [TreeM.onDetector_of_some found]
    refine Views.Show.modify known found fun position binding listed => ?_
    exact Detector.clearAll_previous node.payload.registry node.payload.bindings state binding
      (List.mem_of_getElem? listed)

/-- A pass that drops nothing keeps listeners up to date, and no other pass does. -/
theorem Known.pass (known : course.Known) (host : Host σ) (purpose : Purpose) (id : NodeId) :
    let tidings := Tree.tidings host purpose id course.world
    let later := (Tree.pass host purpose id course.world).2.2
    (tidings.lost = [] → (course.heard.hear tidings).Show later) ∧
      (tidings.lost ≠ [] → ¬ (course.heard.hear tidings).InSync later) := by
  obtain ⟨tidings, tells, keeps, falls⟩ := ToldM.Faithful.narrateVisit host purpose
    (course.world.2.cells.length + 1) id course.heard course.world [] known
  rw [Tree.narrate_pass] at tells keeps falls
  rw [show Tree.tidings host purpose id course.world = tidings from tells]
  exact ⟨keeps, fun lost => (falls lost).1⟩

theorem Known.step (known : course.Known) (host : Host σ) (call : Call σ) :
    ((call.tidings host course.world).lost = [] → (course.step host call).Known) ∧
      ((call.tidings host course.world).lost ≠ [] → ¬ (course.step host call).InSync) := by
  have quiet_step (kept : (course.step host call).Known) (quiet : call.tidings host course.world = []) :
      ((call.tidings host course.world).lost = [] → (course.step host call).Known) ∧
        ((call.tidings host course.world).lost ≠ [] → ¬ (course.step host call).InSync) :=
    ⟨fun _ => kept, fun lost => absurd (congrArg Tidings.lost quiet) lost⟩
  cases call with
  | mutate change => exact quiet_step known rfl
  | hydrate id context locals =>
    exact quiet_step (TreeM.Steady.hydrate id context locals _ _ known) rfl
  | dehydrate id => exact quiet_step (known.dehydrate id) rfl
  | setMode id mode => exact quiet_step (TreeM.Steady.setMode id mode _ _ known) rfl
  | markPathToRoot id =>
    exact quiet_step (TreeM.Steady.markUpward _ (some id) _ _ known) rfl
  | detect id => exact known.pass host .detect id
  | verify id => exact known.pass host .verify id

theorem lost_step (host : Host σ) (call : Call σ) (course : Course σ κ) :
    (course.step host call).told.lost =
      course.told.lost ++ (call.tidings host course.world).lost :=
  List.flatMap_append

/-- What is dropped stays dropped. -/
theorem lost_grows (host : Host σ) (calls : List (Call σ)) (course : Course σ κ) :
    course.told.lost <+: (course.run host calls).told.lost := by
  induction calls generalizing course with
  | nil => exact List.prefix_rfl
  | cons call calls ih =>
    refine List.IsPrefix.trans ?_ (ih (course.step host call))
    rw [lost_step]
    exact List.prefix_append _ _

theorem Known.run (known : course.Known) (calls : List (Call σ)) :
    (∀ count, (course.run host (calls.take count)).InSync) ↔
      (course.run host calls).told.lost = course.told.lost := by
  induction calls generalizing course with
  | nil => simpa [Course.run] using known.inSync
  | cons call calls ih =>
    obtain ⟨keeps, falls⟩ := known.step host call
    have grows := lost_step host call course
    cases more : (call.tidings host course.world).lost with
    | nil =>
      have others := ih (keeps more)
      rw [more, List.append_nil] at grows
      rw [grows] at others
      rw [show course.run host (call :: calls) = (course.step host call).run host calls from rfl,
        ← others]
      refine ⟨fun synced count => synced (count + 1), fun synced count => ?_⟩
      cases count with
      | zero => exact known.inSync
      | succ count => exact synced count
    | cons change changes =>
      have behind := falls (by rw [more]; exact List.cons_ne_nil change changes)
      refine ⟨fun synced => absurd (synced 1) behind, fun same => ?_⟩
      have longer := (lost_grows host calls (course.step host call)).length_le
      rw [show (course.step host call).run host calls = course.run host (call :: calls) from rfl,
        same, grows, more] at longer
      simp only [List.length_append, List.length_cons] at longer
      omega

/-- What is told of as handed over carries the names of the expressions that the tree has. -/
theorem run_named (host : Host σ) (calls : List (Call σ)) (course : Course σ κ) {tree : Tree σ κ}
    (same : ∀ id position, course.world.2.label? id position = tree.label? id position)
    (named : ∀ id position record, (id, position, record) ∈ course.told.heard →
      tree.label? id position = some record.binding) :
    ∀ id position record, (id, position, record) ∈ (course.run host calls).told.heard →
      tree.label? id position = some record.binding := by
  induction calls generalizing course with
  | nil => exact named
  | cons call calls ih =>
    obtain ⟨kept, tells⟩ := call.named host course.world
    refine ih (course.step host call) (fun id position => ?_) fun id position record heard => ?_
    · rw [← same]
      exact kept.label? id position
    · have heard := Tidings.heard_append course.told (call.tidings host course.world) ▸ heard
      rcases List.mem_append.mp heard with heard | heard
      · exact named id position record heard
      · rw [← same]
        exact tells id position record heard

/-- Recorders at all dispatchers write down what is told of as handed over, and nothing else. -/
theorem run_recording (host : Host σ) (calls : List (Call σ)) (course : Course σ κ) :
    calls.foldl (fun world call => call.beside.run host.beside world)
        (Tree.recording course.told.calls course.world) =
      Tree.recording (course.run host calls).told.calls (course.run host calls).world := by
  induction calls generalizing course with
  | nil => rfl
  | cons call calls ih =>
    rw [List.foldl_cons, Call.run_recording, ← Tidings.calls_append]
    exact ih (course.step host call)

end Course

/-- Detectors as they are made, which remember nothing yet. -/
def Tree.Fresh (tree : Tree σ κ) : Prop :=
  ∀ id node, tree.node? id = some node →
    ∀ binding ∈ node.payload.bindings, binding.previous = .uninitialized

namespace Course

/-- Whatever is called, and whatever fails, listeners are in step with what is remembered after every
call exactly if no pass drops a change. What they hear is what recorders at the dispatchers write down,
change by change, under the names of the expressions that have changed. -/
theorem inSync_iff_nothing_lost (host : Host σ) (state : σ) {tree : Tree σ κ} (fresh : tree.Fresh)
    (calls : List (Call σ)) :
    let course := run host calls { world := (state, tree) }
    calls.foldl (fun world call => call.beside.run host.beside world)
        (Tree.recording [] (state, tree)) = Tree.recording course.told.calls course.world ∧
      course.told.calls.records = (course.told.heard.map fun change => (change.1, change.2.2)) ∧
      (∀ id position record, (id, position, record) ∈ course.told.heard →
        tree.label? id position = some record.binding) ∧
      ((∀ count, (run host (calls.take count) { world := (state, tree) }).InSync) ↔
        course.told.lost = []) := by
  refine ⟨run_recording host calls { world := (state, tree) }, Tidings.records_calls _, ?_, ?_⟩
  · exact run_named host calls { world := (state, tree) } (fun _ _ => rfl) fun _ _ _ => nofun
  · have known : Known { world := (state, tree) } := fun id node found position binding listed =>
      fresh id node found binding (List.mem_of_getElem? listed)
    exact known.run calls

/-- One detector of some expressions. -/
def watching (bindings : List (Binding Empty)) : Course ChangeLog Empty where
  world := ([], { cells := [{ generation := 0, node := some { payload := .watching bindings } }] })

/-- A detection that drops nothing is heard of. -/
theorem inSync_watching :
    let course := (watching [.fresh "a" "left" .implicit]).run .bare [.detect ⟨0, 0⟩]
    let calls : ChangeLog := [
      { group := ⟨"left"⟩
        changes := [{ binding := ⟨"a"⟩, previous := .uninitialized, current := .null }] }]
    course.told.lost = [] ∧ course.world.1 = calls ∧
      course.told.calls = calls.map (Prod.mk ⟨0, 0⟩) ∧
      ∀ count, ((watching [.fresh "a" "left" .implicit]).run .bare
        ([.detect ⟨0, 0⟩].take count)).InSync := by
  have fresh : (watching [.fresh "a" "left" .implicit]).world.2.Fresh := by
    rintro ⟨index, generation⟩ node found binding member
    cases index with
    | zero =>
      simp only [watching, Forest.node?, List.getElem?_cons_zero] at found
      split at found
      · cases found
        cases List.mem_singleton.mp member
        rfl
      · cases found
    | succ index => cases found
  obtain ⟨recorded, -, -, synced⟩ := inSync_iff_nothing_lost .bare [] fresh [.detect ⟨0, 0⟩]
  exact ⟨rfl, rfl, (congrArg (·.1.2) recorded).symm, synced.mpr rfl⟩

/-- An application whose only object has a field `a` with a number in it and a field `b` that holds
whatever the state is. -/
def personHost : Host Value where
  call _ _ := throw (.host "no such function")
  readField _ name := fun held => (.ok (if name = "a" then .int 1 else held), held)
  readKeyed ref key := throw (.unknownField ref.typeName key.display)
  invoke ref name _ := throw (.unknownField ref.typeName name)
  fields _ _ := []
  nesting _ := 0

/-- A detector of `a` and `b.c`, in one group, whose dispatcher takes everything. -/
def person : Tree Value Empty where
  cells := [{
    generation := 0
    node := some { payload := {
      name := "person"
      registry := .default { supports := nofun, transform := nofun, destroy := nofun }
      dispatcher := .silent
      bindings := [.fresh "a" "group" (.property .implicit "a"),
        .fresh "b.c" "group" (.property (.property .implicit "b") "c")]
      localNames := [] } } }]

/-- A change in front of a failure in its group is remembered, and no dispatcher ever hears of it: behind
a detection that fails at `b.c` and one that gets through, `a` has a remembered value, while all that was
handed over is the change of `b.c`. -/
theorem detect_loses_change :
    let found : Value := .map (.host 0) [("c", .int 2)]
    let calls : List (Call Value) := [.hydrate ⟨0, 0⟩ (.object ⟨0, "Person"⟩) [], .detect ⟨0, 0⟩,
      .mutate fun _ => found, .detect ⟨0, 0⟩]
    let ended := calls.foldl (fun world call => call.beside.run personHost.beside world)
      (Tree.recording [] (.null, person))
    ended.1.2 = [(⟨0, 0⟩, { group := ⟨"group"⟩, changes := [
        { binding := ⟨"b.c"⟩, previous := .uninitialized, current := .int 2 }] })] ∧
      ended.2.payloads.map (fun detector => detector.bindings.map Binding.previous) =
        [[.set (.int 1), .set (.int 2)]] ∧
      ¬ (run personHost calls { world := (.null, person) }).InSync := by
  refine ⟨rfl, rfl, fun synced => ?_⟩
  have known := synced ⟨0, 0⟩ _ rfl rfl 0 _ rfl
  cases known

end Course
end ChangeWatch
