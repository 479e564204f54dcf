import ChangeWatch.Proofs.FirstReports.Checks
import ChangeWatch.Proofs.Handles

/-!
First reports. What nobody has taken in of an expression since its detector had no context for the last
time, the next detection that gets through reports. A detection takes in what it evaluates, also if it
fails later; a verification takes in what a pipe at the root publishes. A new context alone makes no
expression due again.
-/
namespace ChangeWatch

open Forest (Linked)
open Relation (ReflTransGen)

/-- The changes that the listener of one detector hears of. -/
def Tidings.heardBy (id : NodeId) (tidings : Tidings) : List (Nat × ChangeRecord) :=
  tidings.flatMap fun (other, event) => if other = id then event.heard else []

/-- The changes that one detector hands to its dispatcher. -/
def Calls.changesOf (id : NodeId) (calls : Calls) : List ChangeRecord :=
  (calls.filter (·.1 = id)).flatMap (·.2.changes)

theorem Calls.changesOf_append (id : NodeId) (calls later : Calls) :
    changesOf id (calls ++ later) = changesOf id calls ++ changesOf id later := by
  simp only [changesOf, List.filter_append, List.flatMap_append]

/-- The expressions that are evaluated anywhere in a tree without failure. -/
def Tidings.answers (tidings : Tidings) : List (NodeId × Nat) :=
  tidings.filterMap fun
    | (id, .evaluated position (.ok _)) => some (id, position)
    | _ => none

namespace Tidings

theorem heardBy_append (id : NodeId) (tidings later : Tidings) :
    (tidings ++ later).heardBy id = tidings.heardBy id ++ later.heardBy id :=
  List.flatMap_append

theorem heardBy_of_node (id other : NodeId) (events : List Event) :
    heardBy id (events.map fun event => (other, event)) =
      if other = id then Event.heardIn events else [] := by
  by_cases same : other = id <;> simp [heardBy, List.flatMap_map, same, Event.heardIn]

/-- A dispatcher is called with what its listener hears. -/
theorem changesOf_calls (id : NodeId) (tidings : Tidings) :
    tidings.calls.changesOf id = (tidings.heardBy id).map Prod.snd := by
  induction tidings with
  | nil => rfl
  | cons first tidings ih =>
    obtain ⟨other, event⟩ := first
    have called : Calls.changesOf id (event.calls.map fun call => (other, call)) =
        (if other = id then event.heard else []).map Prod.snd := by
      by_cases same : other = id <;> cases event <;>
        simp [Calls.changesOf, Event.calls, Event.heard, same]
    have split : calls ((other, event) :: tidings) =
        event.calls.map (fun call => (other, call)) ++ calls tidings := rfl
    rw [split, Calls.changesOf_append, called, ih, ← List.map_append]
    rfl

theorem mem_answers {tidings : Tidings} {id : NodeId} {position : Nat} {outcome : Outcome}
    (told : (id, .evaluated position (.ok outcome)) ∈ tidings) : (id, position) ∈ tidings.answers :=
  List.mem_filterMap.mpr ⟨_, told, rfl⟩

end Tidings

/-- The expressions that an operation evaluates without failure for some purpose. -/
def Operation.answers (host : Host σ) (purpose : Purpose) (operation : Operation σ κ)
    (world : σ × Tree σ κ) : List (NodeId × Nat) :=
  match purpose, operation with
  | .detect, detect id => (Tree.tidings host .detect id world).answers
  | .verify, verify id => (Tree.tidings host .verify id world).answers
  | _, _ => []

namespace Tree

/-- The expressions that a history evaluates without failure for some purpose. -/
def answered (host : Host σ) (purpose : Purpose) :
    List (Operation σ κ) → σ × Tree σ κ → List (NodeId × Nat)
  | [], _ => []
  | operation :: operations, world =>
    operation.answers host purpose world ++
      answered host purpose operations (operation.run host world).2

section Course

variable {host : Host σ} {purpose : Purpose} {course : List (Inspection σ κ)}

theorem heardBy_course {inspection : Inspection σ κ} (member : inspection ∈ course)
    (distinct : (course.map Inspection.id).Nodup) :
    (courseTidings course).heardBy inspection.id = Event.heardIn inspection.events := by
  have absent {others : List (Inspection σ κ)} {id : NodeId}
      (away : id ∉ others.map Inspection.id) : (courseTidings others).heardBy id = [] := by
    refine List.flatMap_eq_nil_iff.mpr ?_
    rintro ⟨other, event⟩ told
    obtain ⟨one, among, rfl, -⟩ := mem_courseTidings.mp told
    exact if_neg fun same : one.id = id => away (same ▸ List.mem_map_of_mem among)
  induction course with
  | nil => cases member
  | cons first others ih =>
    obtain ⟨apart, distinct⟩ := List.nodup_cons.mp distinct
    have split : courseTidings (first :: others) = first.tidings ++ courseTidings others := rfl
    rw [split, Tidings.heardBy_append, Inspection.tidings, Tidings.heardBy_of_node]
    rcases List.mem_cons.mp member with rfl | later
    · rw [if_pos rfl, absent apart, List.append_nil]
    · have other : first.id ≠ inspection.id := fun same => apart (same ▸ List.mem_map_of_mem later)
      rw [if_neg other, List.nil_append, ih later distinct]

end Course

variable {host : Host σ} {purpose : Purpose} {world : σ × Tree σ κ} {id top : NodeId}

/-- What becomes of a detector in a pass with some tidings: nothing, or what a check makes of it that
the tidings tell of. -/
inductive Fares (host : Host σ) (purpose : Purpose) (told : Tidings) (id : NodeId)
    (detector : Detector σ κ) : Detector σ κ → Prop where
  | spared : Fares host purpose told id detector detector
  | checked {before between : σ} {result : Except CheckError Nat} {after : Detector σ κ}
    {events : List Event} (mode : Mode)
    (ran : detector.narrate host purpose before = (((result, after), events), between))
    (tells : ∀ event ∈ events, (id, event) ∈ told) :
    Fares host purpose told id detector { after with mode }

theorem pass_fares (host : Host σ) (purpose : Purpose) (top : NodeId) (linked : Linked world.2 [])
    {detector : Detector σ κ} (found : Forest.payloadOf world.2 id = some detector) :
    ∃ after, Forest.payloadOf (pass host purpose top world).2.2 id = some after ∧
      Fares host purpose (tidings host purpose top world) id detector after := by
  obtain ⟨node, held, rfl⟩ := Option.map_eq_some_iff.mp found
  -- What a pass leaves of a node, as far as its detector is concerned.
  have leaves {later : Tree σ κ} {next : Node (Detector σ κ)} (looked : later.node? id = some next) :
      Forest.payloadOf later id = some next.payload := by
    rw [Forest.payloadOf, looked, Option.map_some]
  have spared {later : Tree σ κ} {told : Tidings} (same : later.node? id = world.2.node? id) :
      ∃ after, Forest.payloadOf later id = some after ∧
        Fares host purpose told id node.payload after :=
    ⟨_, leaves (same.trans held), .spared⟩
  cases present : Forest.contains world.2 top with
  | false =>
    rw [pass_of_none (Forest.contains_eq_false.mp present)]
    exact spared rfl
  | true =>
    obtain ⟨visited, -, -, ends⟩ := exists_pass_ends host purpose linked present world.1
    rcases ran : pass host purpose top world with ⟨result, later⟩
    rcases ends _ _ ran with ⟨course, state, next, ended, passed⟩ |
      ⟨course, failed, cause, events, state, next, ended, stopped⟩
    all_goals
      simp only [Prod.mk.injEq, List.nil_append] at ended
      obtain ⟨-, rfl, told⟩ := ended
      rw [told]
    · by_cases inside : id ∈ course.map Inspection.id
      · obtain ⟨inspection, member, rfl⟩ := List.mem_map.mp inside
        obtain ⟨_, _, _, _, held', ran⟩ := passed.inspects.ran inspection member
        obtain ⟨_, -, marked⟩ := passed.marked inspection member
        cases held.symm.trans held'
        have tells : ∀ event ∈ inspection.events, (inspection.id, event) ∈ courseTidings course := by
          intro event happened
          exact mem_courseTidings.mpr ⟨inspection, member, rfl, happened⟩
        exact ⟨_, leaves marked, .checked _ ran tells⟩
      · rw [passed.order] at inside
        exact spared (passed.others id inside)
    · obtain ⟨_, _, _, heldThere, inspects, ranThere, leftThere⟩ := stopped.fails
      by_cases inside : id ∈ course.map Inspection.id
      · obtain ⟨inspection, member, rfl⟩ := List.mem_map.mp inside
        obtain ⟨_, _, _, _, held', ran⟩ := inspects.ran inspection member
        cases held.symm.trans held'
        have tells : ∀ event ∈ inspection.events, (inspection.id, event) ∈
            courseTidings course ++ events.map fun event => (failed, event) := by
          intro event happened
          apply List.mem_append_left
          exact mem_courseTidings.mpr ⟨inspection, member, rfl, happened⟩
        by_cases below : Forest.Below world.2 failed inspection.id
        · obtain ⟨_, -, opened⟩ := stopped.above inspection member below
          exact ⟨_, leaves opened, .checked inspection.detector.mode ran tells⟩
        · obtain ⟨_, -, marked⟩ := stopped.marked inspection member below
          exact ⟨_, leaves marked, .checked _ ran tells⟩
      · by_cases here : id = failed
        · subst here
          cases held.symm.trans heldThere
          refine ⟨_, leaves leftThere, .checked _ ranThere ?_⟩
          intro event happened
          exact List.mem_append_right _ (List.mem_map_of_mem happened)
        · exact spared (stopped.others id inside here)

end Tree

theorem Detector.Quiet.due {detector later : Detector σ κ} {position : Nat}
    (quiet : Quiet detector later) (due : detector.Due position) : later.Due position := by
  cases quiet with
  | setMode mode => exact due
  | hydrate context locals => exact due
  | dehydrate state =>
    intro binding found
    have forgetful := (detector.renewed_dehydrate state).forgetful rfl
    exact Binding.due_of_forgetful (forgetful binding (List.mem_of_getElem? found))

/-- The detector behind a handle is due at a position if it is a certain one. -/
def Tree.Due (made : Detector σ κ) (id : NodeId) (position : Nat) (tree : Tree σ κ) : Prop :=
  ∀ detector, Forest.payloadOf tree id = some detector → detector.blank = made →
    detector.Due position

section Made

variable {host : Host σ} {hosted : HostedPipes σ κ} {proto : Proto σ κ} {place : Place}
  {dispatcher : Dispatcher σ} {records : List BindingRecord} {localNames : List String}
  {record : BindingRecord} {id : NodeId} {position : Nat} {world : σ × Tree σ κ}
  (pipes : proto.registry = .default hosted) (parsed : record.source.Parsed)
  (listed : records[position]? = some record)
include pipes parsed listed

theorem Tree.pass_due {purpose : Purpose} {top : NodeId} (linked : Linked world.2 [])
    (untaken : ∀ outcome, (id, .evaluated position (.ok outcome)) ∈ tidings host purpose top world →
      purpose = .verify ∧ record.source.expr.isPipe = false)
    (due : world.2.Due (proto.instantiate place dispatcher records localNames) id position) :
    (pass host purpose top world).2.2.Due
      (proto.instantiate place dispatcher records localNames) id position := by
  intro later held blank
  have became := (pass_kept host purpose top world).detectors id
  rw [held] at became
  generalize before : Forest.payloadOf world.2 id = old at became
  cases became with
  | @some detector _ lineage =>
    have made := lineage.blank.symm.trans blank
    have still := due detector before made
    obtain ⟨after, held', fares⟩ := pass_fares host purpose top linked before
    cases held.symm.trans held'
    cases fares with
    | spared => exact still
    | checked mode ran tells =>
      obtain ⟨binding, found, formed, -⟩ := Detector.formed_of_blank made parsed listed
      have registry : detector.registry = .default hosted :=
        (congrArg Detector.registry made).trans pipes
      have next := Detector.narrate_due registry found formed (still binding found) ran
        fun outcome told => untaken outcome (tells _ told)
      exact next

/-- A detector stays due in an operation that takes in nothing of its expression. -/
theorem Operation.run_due {operation : Operation σ κ} (linked : Linked world.2 [])
    (undetected : (id, position) ∉ operation.answers host .detect world)
    (unverified : record.source.expr.isPipe = true →
      (id, position) ∉ operation.answers host .verify world)
    (due : world.2.Due (proto.instantiate place dispatcher records localNames) id position) :
    (operation.run host world).2.2.Due
      (proto.instantiate place dispatcher records localNames) id position := by
  have quiet (turns : ∀ detector later, operation.Turns host detector later →
      ReflTransGen Detector.Quiet detector later) :
      (operation.run host world).2.2.Due
        (proto.instantiate place dispatcher records localNames) id position := by
    refine (operation.run_effect host linked).keeps linked (fun detector made _ => ?_)
      (fun detector later turned due blank => ?_) due
    · obtain ⟨proto, place, dispatcher, records, localNames, rfl⟩ := exists_of_made made
      intro binding found
      have listed := List.mem_of_getElem? found
      have renewed := Detector.renewed_instantiate proto place dispatcher records localNames
      have forgetful := renewed.forgetful rfl
      exact Binding.due_of_forgetful (forgetful binding listed)
    · have quiet := turns detector later turned
      clear turned
      induction quiet with
      | refl => exact due blank
      | tail _ quiet ih => exact quiet.due (ih (quiet.blank.symm.trans blank))
  cases operation with
  | detect top =>
    refine Tree.pass_due pipes parsed listed linked (fun outcome told => ?_) due
    exact absurd (Tidings.mem_answers told) undetected
  | verify top =>
    refine Tree.pass_due pipes parsed listed linked (fun outcome told => ⟨rfl, ?_⟩) due
    exact eq_false_of_ne_true fun piped => unverified piped (Tidings.mem_answers told)
  | _ => exact quiet fun _ _ turned => turned

/-- What is due at the start of a history, and is not taken in during it, is due at its end. -/
theorem Tree.after_due {operations : List (Operation σ κ)} (linked : Linked world.2 [])
    (undetected : (id, position) ∉ answered host .detect operations world)
    (unverified : record.source.expr.isPipe = true →
      (id, position) ∉ answered host .verify operations world)
    (due : world.2.Due (proto.instantiate place dispatcher records localNames) id position) :
    (after host operations world).2.Due
      (proto.instantiate place dispatcher records localNames) id position := by
  induction operations generalizing world with
  | nil => exact due
  | cons operation operations ih =>
    simp only [answered, List.mem_append, not_or] at undetected unverified
    have first := operation.run_due pipes parsed listed linked undetected.1
      (fun piped => (unverified piped).1) due
    exact ih (operation.run_linked linked) undetected.2 (fun piped => (unverified piped).2) first

end Made

/-- A detection that gets through checks every active node, and says what its listener hears of. -/
theorem Tree.heardBy_of_active {host : Host σ} {world next : σ × Tree σ κ} {root id : NodeId}
    {detector : Detector σ κ} (linked : Linked world.2 [])
    (ran : detectChanges host root world = (.ok (), next)) (active : Active world.2 root id)
    (found : Forest.payloadOf world.2 id = some detector) :
    ∃ before total after events between,
      detector.narrate host .detect before = (((.ok total, after), events), between) ∧
      (tidings host .detect root world).heardBy id = Event.heardIn events := by
  obtain ⟨node, held, rfl⟩ := Option.map_eq_some_iff.mp found
  obtain ⟨visited, walk, distinct, ends⟩ :=
    exists_pass_ends host .detect linked (contains_of_pass_ok ran) world.1
  rcases ends _ _ ran with ⟨course, later, tree, ended, passed⟩ | ⟨_, _, _, _, _, _, ended, -⟩
  · simp only [Prod.mk.injEq, List.nil_append] at ended
    obtain ⟨-, -, told⟩ := ended
    have inside : id ∈ visited := walk.mem_iff.mpr ⟨root, List.mem_singleton_self root, active⟩
    rw [← passed.order] at inside distinct
    obtain ⟨inspection, member, rfl⟩ := List.mem_map.mp inside
    obtain ⟨_, before, total, between, held', ran⟩ := passed.inspects.ran inspection member
    cases held.symm.trans held'
    exact ⟨before, total, _, _, between, ran, told ▸ heardBy_course member distinct⟩
  · cases ended

/-- Whatever has been done with a tree, a detection that gets through and visits a detector with a
context hands changes of its expressions to its dispatcher, in their order and each under its name. An
expression of which nothing has been taken in since the detector had no context is reported exactly once,
and as never reported before: no detection has evaluated it without failure since then, and no
verification either if there is a pipe at its root. -/
theorem Tree.first_detection_reports (host : Host σ) (start : σ)
    (before between : List (Operation σ κ)) {root id : NodeId} {detector : Detector σ κ}
    {proto : Proto σ κ} {hosted : HostedPipes σ κ} {place : Place} {dispatcher : Dispatcher σ}
    {records : List BindingRecord} {localNames : List String}
    (bare : ∀ earlier, Forest.payloadOf (after host before (start, {})).2 id = some earlier →
      earlier.isHydrated = false)
    (found : Forest.payloadOf (after host (before ++ between) (start, {})).2 id = some detector)
    (made : detector.blank = proto.instantiate place dispatcher records localNames)
    (pipes : proto.registry = .default hosted)
    (parsed : ∀ record ∈ records, record.source.Parsed)
    (hydrated : detector.isHydrated = true)
    (active : Active (after host (before ++ between) (start, {})).2 root id)
    {next : σ × Tree σ κ}
    (ran : detectChanges host root (after host (before ++ between) (start, {})) = (.ok (), next)) :
    ∃ heard : List (Nat × ChangeRecord),
      (calls host .detect root (after host (before ++ between) (start, {}))).changesOf id =
        heard.map Prod.snd ∧
      (heard.map Prod.fst).Pairwise (· < ·) ∧
      (∀ position record, (position, record) ∈ heard →
        records[position]?.map BindingRecord.binding = some record.binding) ∧
      ∀ position record, records[position]? = some record →
        (id, position) ∉ answered host .detect between (after host before (start, {})) →
        (record.source.expr.isPipe = true →
          (id, position) ∉ answered host .verify between (after host before (start, {}))) →
        ∃ current, heard.filter (·.1 = position) =
          [(position, { binding := record.binding, previous := .uninitialized, current })] := by
  have split : after host (before ++ between) (start, {}) =
      after host between (after host before (start, {})) := List.foldl_append
  have linked : Linked (after host before (start, {})).2 [] := after_linked host start before
  have linked' : Linked (after host (before ++ between) (start, {})).2 [] := after_linked host start _
  obtain ⟨state, total, left, events, later, checked, hears⟩ :=
    heardBy_of_active linked' ran active found
  obtain ⟨ordered, named⟩ := detector.narrate_listed host .detect state
  rw [checked] at ordered named
  refine ⟨Event.heardIn events, ?_, ordered, fun position record heard => ?_, ?_⟩
  · rw [calls_eq, Tidings.changesOf_calls, hears]
  · rw [← Detector.names_of_blank made]
    exact named position record heard
  · intro position record listed undetected unverified
    have parsed := parsed record (List.mem_of_getElem? listed)
    have atFirst : (after host before (start, {})).2.Due
        (proto.instantiate place dispatcher records localNames) id position := by
      intro earlier held _ binding listed
      have unscoped : earlier.scope = none :=
        Option.isNone_iff_eq_none.mp (Option.isSome_eq_false_iff.mp (bare earlier held))
      have forgetful := (after_madeBy host start before id earlier held).renewed.forgetful unscoped
      exact Binding.due_of_forgetful (forgetful binding (List.mem_of_getElem? listed))
    have due := after_due pipes parsed listed linked undetected unverified atFirst
    rw [← split] at due
    obtain ⟨binding, shown, formed, label⟩ := Detector.formed_of_blank made parsed listed
    have registry : detector.registry = .default hosted :=
      (congrArg Detector.registry made).trans pipes
    rw [← label]
    exact Detector.detect_reports registry shown formed (due detector found made binding shown)
      hydrated checked

namespace Shelf

/-- An expression that is to be reported under a label of its own. -/
def entry (label text : String) : BindingRecord where
  source :=
    match parse .binding text "" with
    | .ok source => source
    | .error _ => { expr := .implicit, text := "", location := "", slots := 0 }
  binding := ⟨label⟩
  group := ⟨label⟩

theorem entry_parsed {label text : String} (fine : (parse .binding text "").isOk = true) :
    (entry label text).source.Parsed :=
  Source.parsed_of_isOk fine fun found parsed => by rw [entry, parsed]

def proto : Proto Nat Empty where
  name := "a"
  registry := registry
  strategy := .compiled

/-- A detector of some expressions gets a context. -/
def shown (entries : List BindingRecord) : List (Operation Nat Empty) :=
  [.insert proto (.detector 0) .silent entries [], .hydrate (nth 0) scope.context scope.locals]

/-- One expression with a pipe at its root, and one without. -/
def entries : List BindingRecord := [entry "a" "items[0]", entry "b" "items | iterableDiff"]

/-- What becomes of the detector is found as long as nothing is destroyed. -/
theorem shown_found (later : List (Operation Nat Empty))
    (spared : Tree.frees application later
      (Tree.after application (shown entries) (1, {})) (nth 0).index = 0) :
    ∃ detector,
      Forest.payloadOf (Tree.after application (shown entries ++ later) (1, {})).2 (nth 0) =
        some detector ∧
      detector.blank = proto.instantiate (.detector 0) .silent entries [] := by
  let start : Nat × Tree Nat Empty := (1, {})
  let first : Operation Nat Empty := .insert proto (.detector 0) .silent entries []
  let rest : List (Operation Nat Empty) := [.hydrate (nth 0) scope.context scope.locals] ++ later
  have linked : Forest.Linked (first.run application start).2.2 [] := first.run_linked .empty
  have found : Forest.payloadOf (first.run application start).2.2 (nth 0) =
      some (proto.instantiate (.detector 0) .silent entries []) := rfl
  rcases Tree.found_or_destroyed application linked found rest with
    ⟨-, emptied⟩ | ⟨-, detector, held, lineage⟩
  · have kept : Tree.frees application rest (first.run application start).2 (nth 0).index = 0 := by
      rw [Tree.frees_append]
      exact Nat.add_eq_zero_iff.mpr ⟨rfl, spared⟩
    omega
  · exact ⟨detector, held, lineage.blank.trans (Detector.blank_instantiate ..)⟩

theorem first_detection_reports_again :
    let before := shown entries ++ [.detect (nth 0), .dehydrate (nth 0)]
    let between := [.hydrate (nth 0) scope.context scope.locals]
    let world := Tree.after application (before ++ between) (1, {})
    let changes := (Tree.calls application .detect (nth 0) world).changesOf (nth 0)
    (Tree.detectChanges application (nth 0) world).1.isOk = true ∧
      changes.map ChangeRecord.binding = [⟨"a"⟩, ⟨"b"⟩] ∧
      ∃ heard : List (Nat × ChangeRecord), changes = heard.map Prod.snd ∧
        (∃ current, heard.filter (·.1 = 0) = [(0, ⟨⟨"a"⟩, .uninitialized, current⟩)]) ∧
        ∃ current, heard.filter (·.1 = 1) = [(1, ⟨⟨"b"⟩, .uninitialized, current⟩)] := by
  intro before between world changes
  have fine : (Tree.detectChanges application (nth 0) world).1.isOk = true := by decide +kernel
  have lost : (Forest.payloadOf (Tree.after application before (1, {})).2 (nth 0)).map
      Detector.isHydrated = some false := by decide +kernel
  have regained : (Forest.payloadOf world.2 (nth 0)).map Detector.isHydrated = some true := by
    decide +kernel
  have minded : (Forest.payloadOf world.2 (nth 0)).map (·.mode.isSkipped) = some false := by
    decide +kernel
  have parsed : ∀ record ∈ entries, record.source.Parsed := by
    simp only [entries, List.forall_mem_cons, List.not_mem_nil, false_implies, implies_true, and_true]
    exact ⟨entry_parsed (by decide +kernel), entry_parsed (by decide +kernel)⟩
  have bare : ∀ earlier,
      Forest.payloadOf (Tree.after application before (1, {})).2 (nth 0) = some earlier →
        earlier.isHydrated = false := by
    intro earlier held
    rw [held] at lost
    exact Option.some.inj lost
  obtain ⟨detector, found, made⟩ :=
    shown_found ([.detect (nth 0), .dehydrate (nth 0)] ++ between) (by decide +kernel)
  rw [← List.append_assoc] at found
  have hydrated : detector.isHydrated = true := by
    rw [found] at regained
    exact Option.some.inj regained
  have awake : detector.mode.isSkipped = false := by
    rw [found] at minded
    exact Option.some.inj minded
  obtain ⟨node, held, rfl⟩ := Option.map_eq_some_iff.mp found
  have active : Tree.Active world.2 (nth 0) (nth 0) := .top ⟨node, held, awake⟩
  rcases ran : Tree.detectChanges application (nth 0) world with ⟨result, next⟩
  rw [ran] at fine
  cases result with
  | error cause => cases fine
  | ok =>
    obtain ⟨heard, called, -, -, reports⟩ := Tree.first_detection_reports application 1 before between
      bare found made rfl parsed hydrated active ran
    have untouched (purpose : Purpose) (position : Nat) : (nth 0, position) ∉
        Tree.answered application purpose between (Tree.after application before (1, {})) := by
      have none : Tree.answered application purpose between
          (Tree.after application before (1, {})) = [] := by cases purpose <;> decide +kernel
      exact none ▸ List.not_mem_nil
    refine ⟨rfl, by decide +kernel, heard, called, ?_, ?_⟩
    · exact reports 0 (entry "a" "items[0]") rfl (untouched .detect 0) fun _ => untouched .verify 0
    · exact reports 1 (entry "b" "items | iterableDiff") rfl (untouched .detect 1)
        fun _ => untouched .verify 1

/-- A context on top of another one makes nothing due again: the first detection over it passes over a
value that has been seen in the context before. -/
theorem first_detection_passes_over :
    let other : Value := .map (.host 0) [("items", .list (.host 1) [.int 0])]
    let hydrated := Tree.after application (shown [entry "a" "items[0]"]) (1, {})
    let rehydrated :=
      Tree.after application [.detect (nth 0), .hydrate (nth 0) other []] hydrated
    ((Tree.calls application .detect (nth 0) hydrated).changesOf (nth 0)).map
        (fun record => (record.binding, record.current.display)) = [(⟨"a"⟩, "0")] ∧
      (Tree.detectChanges application (nth 0) rehydrated).1.isOk = true ∧
      Tree.calls application .detect (nth 0) rehydrated = [] := by
  refine ⟨by decide +kernel, by decide +kernel, ?_⟩
  exact List.eq_nil_of_length_eq_zero (by decide +kernel)

end Shelf
end ChangeWatch
