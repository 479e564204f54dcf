import ChangeWatch.Proofs.Forest.Reached
import ChangeWatch.Proofs.Rest.Memory
import ChangeWatch.Proofs.Rest.Trees
import ChangeWatch.Proofs.Timeless.Numbering
import ChangeWatch.Proofs.Timeless.Start

/-!
Histories that come to rest. Whatever has been done with a tree whose detectors watch records with
built-in pipes, a detection that succeeds leaves nothing for the pass behind it, as long as there are
neither functions nor other objects in what the expressions meet and in what their pipes remember. A
detector that gets another context keeps its pipes, with all that they remember of contexts before. So it
takes more than plain contexts at present: they have to be plain since the detectors last had none.
-/
namespace ChangeWatch

open Forest (Every Linked)
open Stateful (Along)

/-- An expression that was parsed, from a text with or without markers. -/
def Source.Parsed (source : Source) : Prop :=
  ∃ reading text location, parse reading text location = .ok source

theorem Source.parsed_of_isOk {reading : Reading} {text location : String} {source : Source}
    (fine : (parse reading text location).isOk = true)
    (same : ∀ found, parse reading text location = .ok found → source = found) : source.Parsed := by
  cases parsed : parse reading text location with
  | ok found => exact ⟨reading, text, location, same found parsed ▸ parsed⟩
  | error cause =>
    rw [parsed] at fine
    cases fine

/-- An operation that brings built-in pipes only, for parsed expressions, and trusted dispatchers
only. -/
def Operation.Ordinary (hosted : HostedPipes σ Empty) (Trusted : Dispatcher σ → Prop) :
    Operation σ Empty → Prop
  | insert proto place dispatcher records _ => proto.registry = .default hosted ∧
    (∃ detector, place = .detector detector) ∧ Trusted dispatcher ∧
    ∀ entry ∈ records, entry.source.Parsed
  | _ => True

namespace Tree

/-- What all expressions of a tree meet is clear. -/
def Clear (outlook : Outlook σ ν) (world : σ × Tree σ Empty) : Prop :=
  Every (Detector.Clear outlook (outlook.view world.1)) world.2

end Tree

variable {hosted : HostedPipes σ Empty} {outlook : Outlook σ ν} {Trusted : Dispatcher σ → Prop}
  {state : σ} {tree : Tree σ Empty} {id : NodeId}

/-- A new expression has met nothing. -/
theorem Binding.ready_ofRecord (outlook : Outlook σ ν) (strategy : Strategy) (detector index : Nat)
    {entry : BindingRecord} (parsed : entry.source.Parsed) :
    (ofRecord strategy (.part index (.detector detector)) entry).Ready outlook := by
  obtain ⟨reading, text, location, parsed⟩ := parsed
  obtain ⟨owner, placed⟩ := parse_placed parsed
  let start : Epoch.Start := Epoch.start outlook.known outlook.calls
  let watch : Watch :=
    { detector, index, strategy, source := entry.source, owner, placed }
  exact ⟨_, watch, rfl, rfl, watch.holds_ofRecord strategy entry.binding entry.group⟩

theorem Proto.instantiate_ready (outlook : Outlook σ ν) {proto : Proto σ Empty} {place : Place}
    {dispatcher : Dispatcher σ} {entries : List BindingRecord} {localNames : List String}
    (ordinary : Operation.Ordinary hosted Trusted
      (.insert proto place dispatcher entries localNames)) :
    Detector.Ready hosted outlook Trusted
      (proto.instantiate place dispatcher entries localNames) := by
  obtain ⟨registry, ⟨detector, rfl⟩, trusted, parsed⟩ := ordinary
  refine ⟨registry, trusted, fun binding member => ?_⟩
  obtain ⟨⟨entry, index⟩, listed, rfl⟩ := List.mem_map.mp member
  have among : entry ∈ entries := List.fst_mem_of_mem_zipIdx listed
  exact Binding.ready_ofRecord outlook proto.strategy detector index (parsed entry among)

section Made

variable {operations : List (Operation σ Empty)} {detector : Detector σ Empty}
  (made : detector.MadeBy operations)
  (ordinary : ∀ operation ∈ operations, operation.Ordinary hosted Trusted)
include made ordinary

/-- A detector that was made by an ordinary operation. -/
theorem Detector.MadeBy.entries : ∃ (strategy : Strategy) (number : Nat),
    detector.registry = .default hosted ∧ Trusted detector.dispatcher ∧
    ∀ binding ∈ detector.bindings, ∃ entry : BindingRecord, entry.source.Parsed ∧
      (∃ index, binding.place = .ofBinding number index) ∧
      binding.evaluator = .make strategy entry.source (.part 0 binding.place) := by
  obtain ⟨operation, among, fresh⟩ := made.made
  have brings := ordinary operation among
  cases operation with
  | insert proto place dispatcher records localNames =>
    obtain ⟨registry, ⟨number, rfl⟩, trusted, parsed⟩ := brings
    have blank : detector.blank = proto.instantiate (.detector number) dispatcher records localNames :=
      (Option.some.inj fresh).symm
    have wired : detector.registry = proto.registry := congrArg Detector.registry blank
    have told : detector.dispatcher = dispatcher := congrArg Detector.dispatcher blank
    refine ⟨proto.strategy, number, wired.trans registry, told ▸ trusted, fun binding member => ?_⟩
    obtain ⟨entry, listed, index, drawn⟩ := Detector.exists_record blank member
    exact ⟨entry, parsed entry listed, ⟨index, congrArg Binding.place drawn⟩,
      (Binding.made_of_blank drawn).1⟩
  | _ => cases fresh

theorem Detector.MadeBy.ready (homed : detector.Homed)
    (remembers : detector.Remembers outlook.known outlook.calls) :
    Detector.Ready hosted outlook Trusted detector := by
  obtain ⟨strategy, number, registry, trusted, parts⟩ := made.entries ordinary
  refine ⟨registry, trusted, fun binding member => ?_⟩
  obtain ⟨entry, -, ⟨index, place⟩, evaluator⟩ := parts binding member
  exact (remembers binding member).ready (homed binding member) place evaluator

/-- A detector without a context remembers nothing. -/
theorem Detector.MadeBy.remembers (bare : detector.scope = none) {known : ObjectRef → Prop}
    {calls : FunctionRef → Prop} : detector.Remembers known calls := by
  obtain ⟨strategy, number, -, -, parts⟩ := made.entries ordinary
  intro binding member
  obtain ⟨entry, ⟨reading, text, location, parsed⟩, -, evaluator⟩ := parts binding member
  obtain ⟨-, forgetful⟩ := made.renewed.forgetful bare binding member
  refine Binding.remembers_of_forgetful known calls ?_ forgetful
  rw [evaluator, Evaluator.source_make]
  exact parse_placed parsed

end Made

namespace Tree

/-- Whatever has been done with a tree, its detectors are as ready as what they remember. -/
theorem ready_of_remembers {operations : List (Operation σ Empty)}
    (ordinary : ∀ operation ∈ operations, operation.Ordinary hosted Trusted) {state : σ}
    (remembers : Every (Detector.Remembers outlook.known outlook.calls)
      (after outlook.host operations (state, {})).2) :
    Every (Detector.Ready hosted outlook Trusted) (after outlook.host operations (state, {})).2 :=
  fun id detector held => (after_madeBy outlook.host state operations id detector held).ready ordinary
    (after_homed outlook.host state operations id detector held) (remembers id detector held)

/-- Worlds between which detectors stay ready. -/
def Readying (hosted : HostedPipes σ Empty) (outlook : Outlook σ ν)
    (Trusted : Dispatcher σ → Prop) (world next : σ × Tree σ Empty) : Prop :=
  Every (Detector.Ready hosted outlook Trusted) world.2 →
    Every (Detector.Ready hosted outlook Trusted) next.2

instance readyingRefl : Std.Refl (Readying hosted outlook Trusted) where
  refl _ ready := ready

instance readyingTrans :
    Trans (Readying hosted outlook Trusted) (Readying hosted outlook Trusted)
      (Readying hosted outlook Trusted) where
  trans first second ready := second (first ready)

theorem onDetector_readying (id : NodeId)
    {action : Detector σ Empty → StateM σ (α × Detector σ Empty)}
    (keeps : ∀ detector state, Detector.Ready hosted outlook Trusted detector →
      Detector.Ready hosted outlook Trusted (action detector state).1.2) :
    Along (Readying hosted outlook Trusted) (TreeM.onDetector id action) :=
  onDetector_along id fun state _ node found ready =>
    ready.modify id fun _ _ => keeps node.payload state (ready.of_some found)

theorem setMode_readying (id : NodeId) (mode : Mode) :
    Along (Readying hosted outlook Trusted) (setMode id mode) :=
  onDetector_readying id fun _ _ ready => ⟨ready.registry, ready.dispatcher, ready.bindings⟩

/-- A pass keeps detectors ready that meet given values. -/
theorem pass_ready (keeps : ∀ dispatcher, Trusted dispatcher → dispatcher.Upholds outlook)
    {purpose : Purpose} (ready : Every (Detector.Ready hosted outlook Trusted) tree)
    (clear : Clear outlook (state, tree)) :
    Every (Detector.Ready hosted outlook Trusted)
      (pass outlook.host purpose id (state, tree)).2.2 := by
  have fit : Every (Detector.Fit hosted outlook Trusted (outlook.view state)) tree :=
    fun id detector held => (ready id detector held).fit (clear id detector held)
  have kept := visit_keeping keeps purpose (tree.cells.length + 1) id (state, tree) fit
  exact kept.2.mono fun detector fit => fit.ready

end Tree

/-- Every operation keeps detectors ready that meet given values. -/
theorem Operation.run_ready (keeps : ∀ dispatcher, Trusted dispatcher → dispatcher.Upholds outlook)
    {operation : Operation σ Empty} (ordinary : operation.Ordinary hosted Trusted)
    (linked : Linked tree []) (ready : Every (Detector.Ready hosted outlook Trusted) tree)
    (clear : Tree.Clear outlook (state, tree)) :
    Every (Detector.Ready hosted outlook Trusted)
      (operation.run outlook.host (state, tree)).2.2 := by
  have relinked {change : Tree σ Empty → Except ForestError (Tree σ Empty)}
      (same : ∀ next, change tree = .ok next → Forest.SamePayloads tree next) :
      Every (Detector.Ready hosted outlook Trusted)
        (TreeM.restructure (fun tree => (change tree).map fun tree => ((), tree))
          (state, tree)).2.2 := by
    simp only [TreeM.restructure]
    cases ran : change tree with
    | error cause => exact ready
    | ok next => exact ready.of_same (same next ran)
  cases operation with
  | mutate change => exact ready
  | insert proto place dispatcher records localNames =>
    exact ready.insert linked (Proto.instantiate_ready outlook ordinary)
  | addChild parent child => exact relinked fun next => Forest.samePayloads_addChild linked
  | removeChild parent child => exact relinked fun next => Forest.samePayloads_removeChild linked
  | remove id => exact relinked fun next => Forest.samePayloads_remove linked
  | destroy id =>
    simp only [run, Tree.destroy, Stateful.bind_apply, TreeM.restructure]
    cases ran : Forest.destroy tree id with
    | error cause => exact ready
    | ok outcome => exact ready.of_givesBack (Forest.givesBack_destroy linked ran)
  | hydrate id context locals =>
    refine Tree.onDetector_readying id (fun detector state ready => ?_) (state, tree) ready
    exact ⟨ready.registry, ready.dispatcher, ready.bindings⟩
  | dehydrate id =>
    exact Tree.onDetector_readying id (fun detector state ready => ready.dehydrate state)
      (state, tree) ready
  | setMode id mode => exact Tree.setMode_readying id mode (state, tree) ready
  | markPathToRoot id =>
    have marked : Along (Tree.Readying hosted outlook Trusted)
        (Tree.markUpward (tree.cells.length + 1) (some id)) :=
      Tree.markUpward_along Tree.setMode_readying _ _
    exact marked (state, tree) ready
  | detect id => exact Tree.pass_ready keeps ready clear
  | verify id => exact Tree.pass_ready keeps ready clear

namespace Tree

/-- Detectors that meet given values all the time stay ready. -/
theorem after_ready (keeps : ∀ dispatcher, Trusted dispatcher → dispatcher.Upholds outlook)
    {operations : List (Operation σ Empty)}
    (ordinary : ∀ operation ∈ operations, operation.Ordinary hosted Trusted)
    {world : σ × Tree σ Empty} (linked : Linked world.2 [])
    (ready : Every (Detector.Ready hosted outlook Trusted) world.2)
    (clear : ∀ count, Clear outlook (after outlook.host (operations.take count) world)) :
    Every (Detector.Ready hosted outlook Trusted) (after outlook.host operations world).2 := by
  induction operations generalizing world with
  | nil => exact ready
  | cons operation operations ih =>
    obtain ⟨first, others⟩ := List.forall_mem_cons.mp ordinary
    have kept := operation.run_ready keeps first linked ready (clear 0)
    exact ih others (operation.run_linked linked) kept fun count => clear (count + 1)

/-- Behind a history in which everything is clear, all detectors meet given values. -/
theorem after_fit (keeps : ∀ dispatcher, Trusted dispatcher → dispatcher.Upholds outlook)
    {operations : List (Operation σ Empty)}
    (ordinary : ∀ operation ∈ operations, operation.Ordinary hosted Trusted) {state : σ}
    (clear : ∀ count, Clear outlook (after outlook.host (operations.take count) (state, {}))) :
    let world := after outlook.host operations (state, {})
    Every (Detector.Fit hosted outlook Trusted (outlook.view world.1)) world.2 := by
  have ready := after_ready keeps ordinary Linked.empty Every.empty clear
  have here := clear operations.length
  rw [List.take_length] at here
  exact fun id detector held => (ready id detector held).fit (here id detector held)

end Tree

section Records

variable {host : Host σ} {known : ObjectRef → Prop} {record : σ → ObjectRef → Record}

/-- What an expression meets holds known objects, no functions, and no container that the expression
is yet to make. -/
def Binding.Plain (known : ObjectRef → Prop) (records : ObjectRef → Record) (scope : Option Scope)
    (binding : Binding Empty) : Prop :=
  ∀ detector index, binding.place = .ofBinding detector index →
    let present := binding.epoch detector index known fun _ => False
    (∀ ref, known ref → @Record.Foreign present (records ref)) ∧
      ∀ found, scope = some found → @Scope.Foreign present found

/-- What all expressions of a detector meet is plain. -/
def Detector.Plain (known : ObjectRef → Prop) (records : ObjectRef → Record)
    (detector : Detector σ Empty) : Prop :=
  ∀ binding ∈ detector.bindings, binding.Plain known records detector.scope

/-- What all expressions of a tree meet is plain. -/
def Tree.Plain (known : ObjectRef → Prop) (record : σ → ObjectRef → Record)
    (world : σ × Tree σ Empty) : Prop :=
  Every (Detector.Plain known (record world.1)) world.2

theorem Binding.Plain.clear (shows : host.Records known record) {records : ObjectRef → Record}
    {scope : Option Scope} {binding : Binding Empty} (plain : binding.Plain known records scope) :
    binding.Clear (.ofRecords host record known) records scope := by
  intro detector index place
  let present : Epoch := binding.epoch detector index known fun _ => False
  obtain ⟨given, foreign⟩ := plain detector index place
  exact ⟨Outlook.clear_ofRecords shows (fun _ called => called) given, foreign⟩

theorem Tree.Plain.clear (shows : host.Records known record) {world : σ × Tree σ Empty}
    (plain : Tree.Plain known record world) : Tree.Clear (.ofRecords host record known) world :=
  Every.mono plain fun _ plain binding member => (plain binding member).clear shows

/-- What the pipes of all expressions of a tree remember holds known objects only, no functions, and no
container that an expression is yet to make elsewhere. -/
def Tree.PlainMemory (known : ObjectRef → Prop) (tree : Tree σ Empty) : Prop :=
  Every (Detector.Remembers known fun _ => False) tree

/-- Memories stay plain as long as everything that is met is plain. -/
theorem Tree.after_plainMemory (shows : host.Records known record)
    {earlier later : List (Operation σ Empty)}
    (ordinary : ∀ operation ∈ earlier ++ later,
      operation.Ordinary hosted (Dispatcher.Leaves record)) {state : σ}
    (memory : PlainMemory known (after host earlier (state, {})).2)
    (plain : ∀ count, Plain known record
      (after host (later.take count) (after host earlier (state, {})))) :
    PlainMemory known (after host (earlier ++ later) (state, {})).2 := by
  obtain ⟨before, behind⟩ := List.forall_mem_append.mp ordinary
  let outlook : Outlook σ (ObjectRef → Record) := .ofRecords host record known
  have keeps (dispatcher : Dispatcher σ) (leaves : dispatcher.Leaves record) :
      dispatcher.Upholds outlook := leaves.keeps
  have ready : Every (Detector.Ready hosted outlook (Dispatcher.Leaves record))
      (after outlook.host earlier (state, {})).2 := ready_of_remembers before memory
  have stays := after_ready keeps behind (after_linked host state earlier) ready
    fun count => (plain count).clear shows
  rw [show after host (earlier ++ later) (state, {}) = _ from List.foldl_append]
  exact Every.mono stays fun detector ready binding member =>
    (ready.bindings binding member).remembers

/-- Without their contexts, detectors remember nothing. -/
theorem Tree.plainMemory_of_bare (known : ObjectRef → Prop) {operations : List (Operation σ Empty)}
    (ordinary : ∀ operation ∈ operations, operation.Ordinary hosted (Dispatcher.Leaves record))
    {state : σ} (bare : Every (fun detector => detector.scope = none)
      (after host operations (state, {})).2) :
    PlainMemory known (after host operations (state, {})).2 :=
  fun id detector held => (after_madeBy host state operations id detector held).remembers ordinary
    (bare id detector held)

/-- A detection that succeeds reaches a fixed point if contexts, locals and what pipes remember are
plain: every pass right behind it succeeds, calls no dispatcher and leaves the application alone. What
pipes remember is plain if everything met has been plain since no detector had a context. -/
theorem Tree.detect_again (shows : host.Records known record) {operations : List (Operation σ Empty)}
    (ordinary : ∀ operation ∈ operations, operation.Ordinary hosted (Dispatcher.Leaves record))
    {state : σ} (plain : Plain known record (after host operations (state, {})))
    (memory : PlainMemory known (after host operations (state, {})).2)
    {id : NodeId} {changed : σ × Tree σ Empty}
    (ran : detectChanges host id (after host operations (state, {})) = (.ok (), changed)) :
    (∃ later, detectChanges host id changed = (.ok (), (changed.1, later))) ∧
      calls host .detect id changed = [] ∧
      (∃ later, checkNoChanges host id changed = (.ok (), (changed.1, later))) ∧
      calls host .verify id changed = [] := by
  let outlook : Outlook σ (ObjectRef → Record) := .ofRecords host record known
  let world := after outlook.host operations (state, {})
  have leaves : Purpose.Leaves outlook (Dispatcher.Leaves record) .detect := fun _ _ leaves => leaves
  have ready : Every (Detector.Ready hosted outlook (Dispatcher.Leaves record)) world.2 :=
    ready_of_remembers ordinary memory
  have clear : Clear outlook world := plain.clear shows
  have fit : Every (Detector.Fit hosted outlook (Dispatcher.Leaves record) (outlook.view world.1))
      world.2 := fun id detector held => (ready id detector held).fit (clear id detector held)
  obtain ⟨detected, silent⟩ := pass_again leaves fit ran .detect
  obtain ⟨verified, silent'⟩ := pass_again leaves fit ran .verify
  rw [calls_eq, calls_eq]
  exact ⟨detected, Tidings.calls_eq_nil silent, verified, Tidings.calls_eq_nil silent'⟩

end Records

namespace Shelf

/-- The only object of an application: a record that holds a list of so many numbers. -/
def shelf (size : Nat) : Record where
  typeName := "Shelf"
  fields := [("items", .list (.host size) ((List.range size).map fun n => .int (.ofNat n)))]

def records (size : Nat) (_ : ObjectRef) : Record := shelf size

def application : Host Nat :=
  .ofFields (fun _ _ => throw (.host "no function"))
    (fun _ name size => ((shelf size).read name, size)) (fun size _ => (shelf size).fields) fun _ => 1

def registry : Registry Nat Empty :=
  .default { supports := nofun, transform := nofun, destroy := nofun }

def source : Source :=
  match parse .binding "items | iterableDiff" "" with
  | .ok source => source
  | .error _ => { expr := .implicit, text := "", location := "", slots := 0 }

def scope : Scope := { context := .object { id := 0, typeName := "Shelf" } }

/-- One expression gets a context, and then the record gets a longer list. -/
def history : List (Operation Nat Empty) :=
  [.insert { name := "a", registry, strategy := .compiled } (.detector 0) (fun _ _ => pure (.ok ()))
      [{ source, binding := ⟨"a"⟩, group := ⟨"a"⟩ }] [],
    .hydrate { index := 0, generation := 0 } scope.context scope.locals,
    .mutate (· + 1)]

theorem source_parsed : source.Parsed := by
  have fine : (parse .binding "items | iterableDiff" "").isOk = true := by decide +kernel
  exact Source.parsed_of_isOk fine fun found parsed => by rw [source, parsed]

theorem application_records : application.Records (fun _ => True) records where
  readField _ _ _ _ := rfl
  readKeyed _ _ _ := rfl
  invoke _ _ _ _ := rfl

/-- Whoever sees the shelf sees numbers. -/
theorem plain_of_scope {detector : Detector Nat Empty}
    (seen : ∀ found, detector.scope = some found → found = scope) (size : Nat) :
    detector.Plain (fun _ => True) (records size) := by
  intro binding _ number index _
  let present : Epoch := binding.epoch number index (fun _ => True) fun _ => False
  refine ⟨fun _ _ entry member => ?_, fun found same => ?_⟩
  · cases List.mem_singleton.mp member
    refine ⟨.inl (binding.given_of_isHost number index _ _ rfl), ?_⟩
    rw [Value.soundItems_iff]
    intro item listed
    obtain ⟨n, -, rfl⟩ := List.mem_map.mp listed
    trivial
  · cases seen found same
    exact ⟨trivial, fun _ _ held => by cases held⟩

/-- A context that is no object, with items of its own. -/
def itemized (items : List Value) : Value := .map (.host 0) [("items", .list (.host 1) items)]

/-- The same expression over a context with a function, which its pipe remembers until the context is
taken away. -/
def reopened : List (Operation Nat Empty) :=
  [.insert { name := "a", registry, strategy := .compiled } (.detector 0) (fun _ _ => pure (.ok ()))
      [{ source, binding := ⟨"a"⟩, group := ⟨"a"⟩ }] [],
    .hydrate { index := 0, generation := 0 } (itemized [.function { id := 0 }]) [],
    .detect { index := 0, generation := 0 },
    .dehydrate { index := 0, generation := 0 }]

theorem reopened_ordinary : ∀ operation ∈ reopened ++ history.tail,
    operation.Ordinary registry.hosted (Dispatcher.Leaves records) := by
  simp only [reopened, history, List.tail_cons, List.cons_append, List.nil_append,
    List.forall_mem_cons, List.not_mem_nil, false_implies, implies_true, Operation.Ordinary, and_true]
  exact ⟨rfl, ⟨0, rfl⟩, fun _ _ _ => rfl, source_parsed⟩

theorem reopened_bare : Every (fun detector : Detector Nat Empty => detector.scope = none)
    (Tree.after application reopened (1, {})).2 := by
  have bare : (Forest.payloads (Tree.after application reopened (1, {})).2).all
      (fun detector => detector.scope.isNone) = true := by decide +kernel
  refine .of_payloads fun detector member => ?_
  exact Option.isNone_iff_eq_none.mp (List.all_eq_true.mp bare detector member)

/-- Where no detector has a context, there is nothing but the shelf to see from then on. -/
theorem plain_of_bare {world : Nat × Tree Nat Empty}
    (bare : Every (fun detector => detector.scope = none) world.2) (count : Nat) :
    Tree.Plain (fun _ => True) records
      (Tree.after application (history.tail.take count) world) := by
  let Seen (world : Nat × Tree Nat Empty) : Prop :=
    Every (fun detector => ∀ found, detector.scope = some found → found = scope) world.2
  have before : Seen world :=
    Every.mono bare fun detector bare found same => by cases bare.symm.trans same
  have hydrated : Seen (Tree.hydrate ⟨0, 0⟩ scope.context scope.locals world).2 := by
    obtain ⟨size, tree⟩ := world
    cases found : tree.node? ⟨0, 0⟩ with
    | none =>
      rw [Tree.hydrate, TreeM.onDetector_of_none found]
      exact before
    | some node =>
      rw [Tree.hydrate, TreeM.onDetector_of_some found]
      exact Every.modify before _ fun _ _ other same => (Option.some.inj same).symm
  have seen : Seen (Tree.after application (history.tail.take count) world) := by
    rcases count with _ | _ | count
    · exact before
    · exact hydrated
    · rw [List.take_of_length_le (by simp [history])]
      exact hydrated
  exact Every.mono seen fun detector seen => plain_of_scope seen _

/-- A function that was met before the context was taken away does no harm. -/
theorem detect_again_shelf :
    let operations := reopened ++ history.tail
    let world := Tree.after application operations (1, {})
    (∀ operation ∈ operations, operation.Ordinary registry.hosted (Dispatcher.Leaves records)) ∧
      Tree.Plain (fun _ => True) records world ∧ Tree.PlainMemory (fun _ => True) world.2 ∧
      ∃ changed, Tree.detectChanges application ⟨0, 0⟩ world = (.ok (), changed) ∧
        (∃ later, Tree.detectChanges application ⟨0, 0⟩ changed = (.ok (), (changed.1, later))) ∧
        Tree.calls application .detect ⟨0, 0⟩ changed = [] := by
  intro operations world
  have fine : (Tree.detectChanges application ⟨0, 0⟩ world).1.isOk = true := by decide +kernel
  have memory : Tree.PlainMemory (fun _ => True) world.2 :=
    Tree.after_plainMemory application_records reopened_ordinary
      (Tree.plainMemory_of_bare _ (List.forall_mem_append.mp reopened_ordinary).1 reopened_bare)
      (plain_of_bare reopened_bare)
  have plain : Tree.Plain (fun _ => True) records world := by
    have seen := plain_of_bare reopened_bare history.tail.length
    rwa [List.take_length, Tree.after, Tree.after, ← List.foldl_append] at seen
  generalize ran : Tree.detectChanges application ⟨0, 0⟩ world = ended at fine
  obtain ⟨result, changed⟩ := ended
  cases result with
  | error cause => cases fine
  | ok =>
    obtain ⟨again, silent, -⟩ :=
      Tree.detect_again application_records reopened_ordinary plain memory ran
    exact ⟨reopened_ordinary, plain, memory, changed, rfl, again, silent⟩

/-- An application without objects, with functions that count their calls. -/
def counting : Host Nat :=
  .ofFields (fun _ _ calls => (.ok (.int (.ofNat calls)), calls + 1))
    (fun _ _ => throw (.host "no object")) (fun _ _ => []) fun _ => 1

def removed : Source :=
  match parse .binding "(items | iterableDiff).removals[0].item()" "" with
  | .ok source => source
  | .error _ => { expr := .implicit, text := "", location := "", slots := 0 }

/-- A function is met by a detection that fails, and is gone when another context comes. -/
def replaced : List (Operation Nat Empty) :=
  [.insert { name := "a", registry, strategy := .interpreted } (.detector 0) .silent
      [{ source := removed, binding := ⟨"a"⟩, group := ⟨"a"⟩ }] [],
    .hydrate ⟨0, 0⟩ (itemized [.function { id := 0 }]) [],
    .detect ⟨0, 0⟩,
    .hydrate ⟨0, 0⟩ (itemized []) []]

theorem replaced_ordinary : ∀ operation ∈ replaced,
    operation.Ordinary registry.hosted (Dispatcher.Leaves records) := by
  have fine : (parse .binding "(items | iterableDiff).removals[0].item()" "").isOk = true := by
    decide +kernel
  have parsed : removed.Parsed :=
    Source.parsed_of_isOk fine fun found parsed => by rw [removed, parsed]
  simp only [replaced, List.forall_mem_cons, List.not_mem_nil, false_implies, implies_true,
    Operation.Ordinary, and_true]
  exact ⟨rfl, ⟨0, rfl⟩, fun _ _ _ => rfl, parsed⟩

/-- There are no items to be seen. -/
def Vacant : Option Scope → Bool
  | some { context := .map (.host _) [(_, .list (.host _) [])], locals := [] } => true
  | _ => false

theorem plain_of_vacant {detector : Detector Nat Empty} (vacant : Vacant detector.scope = true)
    (size : Nat) : detector.Plain (fun _ => False) (records size) := by
  intro binding _ number index _
  let present : Epoch := binding.epoch number index (fun _ => False) fun _ => False
  have given (n : Nat) : Place.Given (.host n) := binding.given_of_isHost number index _ _ rfl
  refine ⟨fun _ impossible => impossible.elim, fun found same => ?_⟩
  rw [same] at vacant
  unfold Vacant at vacant
  split at vacant
  · rename_i seen
    cases seen
    refine ⟨⟨.inl (given _), by simp, ?_⟩, fun _ _ held => by cases held⟩
    rw [Value.soundEntries_iff]
    intro entry member
    cases List.mem_singleton.mp member
    exact ⟨.inl (given _), trivial⟩
  · cases vacant

/-- Contexts and locals are plain, but the pipe still remembers the function, tells that it was removed,
and so has it called by every pass. -/
theorem detect_never_rests :
    counting.Records (fun _ => False) records ∧
      (∀ operation ∈ replaced, operation.Ordinary registry.hosted (Dispatcher.Leaves records)) ∧
      let world := Tree.after counting replaced (0, {})
      let changed := (Tree.detectChanges counting ⟨0, 0⟩ world).2
      Tree.Plain (fun _ => False) records world ∧
        (Tree.detectChanges counting ⟨0, 0⟩ world).1 = .ok () ∧
        Tree.calls counting .detect ⟨0, 0⟩ changed ≠ [] ∧
        (Tree.checkNoChanges counting ⟨0, 0⟩ changed).1 ≠ .ok () := by
  have vacant : (Forest.payloads (Tree.after counting replaced (0, {})).2).all
      (fun detector => Vacant detector.scope) = true := by decide +kernel
  have runs :
      let ran := Tree.detectChanges counting ⟨0, 0⟩ (Tree.after counting replaced (0, {}))
      (ran.1.isOk && !(Tree.calls counting .detect ⟨0, 0⟩ ran.2).isEmpty &&
        !(Tree.checkNoChanges counting ⟨0, 0⟩ ran.2).1.isOk) = true := by decide +kernel
  have records : counting.Records (fun _ => False) records :=
    ⟨fun _ known => known.elim, fun _ known => known.elim, fun _ known => known.elim⟩
  refine ⟨records, replaced_ordinary, ?_⟩
  generalize Tree.after counting replaced (0, {}) = world at vacant runs
  have plain : Tree.Plain (fun _ => False) Shelf.records world :=
    .of_payloads fun detector member => plain_of_vacant (List.all_eq_true.mp vacant detector member) _
  simp only [Bool.and_eq_true, Bool.not_eq_true', List.isEmpty_eq_false_iff] at runs
  obtain ⟨⟨detected, calls⟩, verified⟩ := runs
  refine ⟨plain, ?_, calls, fun passed => ?_⟩
  · cases result : (Tree.detectChanges counting ⟨0, 0⟩ world).1 with
    | ok => rfl
    | error cause =>
      rw [result] at detected
      cases detected
  · rw [passed] at verified
    cases verified

end Shelf
end ChangeWatch
