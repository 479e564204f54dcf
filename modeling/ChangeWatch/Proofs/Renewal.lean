import ChangeWatch.Proofs.Effects
import ChangeWatch.Proofs.Visits.Ticks

/-!
Detectors that have lost their context are as new, and passes leave them as they are, but for the
mode.
-/
namespace ChangeWatch

open Forest (Linked)

namespace Tree

variable {host : Host σ} {id : NodeId} {tree : Tree σ κ} {node : Node (Detector σ κ)}

/-- A pass over a node that is not there changes nothing, and nothing happens. -/
theorem pass_absent (host : Host σ) (purpose : Purpose) {top : NodeId} (state : σ)
    (absent : tree.node? top = none) :
    (pass host purpose top (state, tree)).2.2 = tree ∧ tidings host purpose top (state, tree) = [] := by
  have refused : mode top (state, tree) = (.error (.forest (.unknown top)), (state, tree)) :=
    TreeM.onDetector_of_none absent
  have silent : ToldM.quiet (mode top) ((state, tree), []) =
      (.error (.forest (.unknown top)), ((state, tree), [])) := by
    rw [ToldM.quiet, refused]
  constructor
  · rw [pass_of_none absent]
  · rw [tidings, narrateVisit, Stateful.bind_of_error silent]

section Bare

variable {purpose : Purpose} {state ended : σ} {course : List (Inspection σ κ)}
  {inspection : Inspection σ κ}

/-- A check of a detector without a context leaves it as it is, and nothing happens. -/
theorem Inspects.bare (inspects : Inspects host purpose tree state course ended)
    (found : tree.node? id = some node) (bare : node.payload.scope = none)
    (member : inspection ∈ course) (same : inspection.id = id) :
    inspection.detector = node.payload ∧ inspection.events = [] := by
  have dry : node.payload.isHydrated = false := by
    rw [Detector.isHydrated, bare]
    rfl
  exact (inspects.detector inspection member node (same ▸ found)).2 dry

theorem Inspects.silent (inspects : Inspects host purpose tree state course ended)
    (found : tree.node? id = some node) (bare : node.payload.scope = none) (event : Event) :
    (id, event) ∉ courseTidings course := by
  intro member
  obtain ⟨inspection, among, same, happened⟩ := mem_courseTidings.mp member
  rw [(inspects.bare found bare among same).2] at happened
  cases happened

/-- A node without a context keeps all but its mode where the nodes of a course are as their checks have
left them. -/
theorem Inspects.spares {next : Tree σ κ} (inspects : Inspects host purpose tree state course ended)
    (found : tree.node? id = some node) (bare : node.payload.scope = none)
    (left : next.node? id = tree.node? id ∨ ∃ inspection ∈ course, inspection.id = id ∧
      inspection.Left tree next) :
    ∃ mode, (mode = node.payload.mode ∨ mode = node.payload.mode.afterVisit) ∧
      next.node? id = some { node with payload := { node.payload with mode } } := by
  rcases left with same | ⟨inspection, member, rfl, node', mode, found', modes, left⟩
  · exact ⟨_, .inl rfl, same.trans found⟩
  · cases found.symm.trans found'
    rw [(inspects.bare found bare member rfl).1] at left
    exact ⟨mode, modes, left⟩

end Bare

/-- A pass leaves a node without a context as it is, but for its mode, and nothing happens there. -/
theorem pass_skips_bare (host : Host σ) (linked : Linked tree []) (found : tree.node? id = some node)
    (bare : node.payload.scope = none) (purpose : Purpose) (top : NodeId) (state : σ) :
    (∃ mode, (mode = node.payload.mode ∨ mode = node.payload.mode.afterVisit) ∧
      (pass host purpose top (state, tree)).2.2.node? id =
        some { node with payload := { node.payload with mode } }) ∧
      ∀ event, (id, event) ∉ tidings host purpose top (state, tree) := by
  cases present : Forest.contains tree top with
  | false =>
    obtain ⟨same, silent⟩ := pass_absent host purpose state (Forest.contains_eq_false.mp present)
    rw [same, silent]
    exact ⟨⟨_, .inl rfl, found⟩, fun _ => List.not_mem_nil⟩
  | true =>
    obtain ⟨visited, -, -, ends⟩ := exists_pass_ends host purpose linked present state
    rcases ran : pass host purpose top (state, tree) with ⟨result, later, next⟩
    rcases ends _ _ ran with ⟨course, later', next', ended, passed⟩ |
      ⟨course, failed, cause, events, later', next', ended, stopped⟩
    · simp only [Prod.mk.injEq, List.nil_append] at ended
      obtain ⟨-, ⟨-, rfl⟩, told⟩ := ended
      exact ⟨passed.inspects.spares found bare (passed.left id),
        fun event => told ▸ passed.inspects.silent found bare event⟩
    · simp only [Prod.mk.injEq, List.nil_append] at ended
      obtain ⟨-, ⟨-, rfl⟩, told⟩ := ended
      obtain ⟨node', detector, reached, found', inspects, fails, -⟩ := stopped.fails
      -- Without a context no check fails.
      have elsewhere : id ≠ failed := by
        rintro rfl
        cases found.symm.trans found'
        rw [Detector.narrate_of_none host bare] at fails
        cases fails
      refine ⟨inspects.spares found bare (stopped.left elsewhere), fun event member => ?_⟩
      rw [told] at member
      rcases List.mem_append.mp member with member | member
      · exact inspects.silent found bare event member
      · obtain ⟨_, -, same⟩ := List.mem_map.mp member
        exact elsewhere (congrArg Prod.fst same).symm

/-- A node that loses its context and gets another one. -/
theorem after_rehydrate (found : tree.node? id = some node) (context : Value) (locals : Locals)
    (state : σ) :
    (after host [.dehydrate id, .hydrate id context locals] (state, tree)).2.node? id =
      some { node with payload := (node.payload.dehydrate state).1.hydrate context locals } := by
  have lost : dehydrate id (state, tree) =
      (.ok (), ((node.payload.dehydrate state).2, Forest.modify tree id fun other =>
        { other with payload := (node.payload.dehydrate state).1 })) :=
    TreeM.onDetector_of_some found
  have bare := Forest.node?_modify_of_some found fun other =>
    { other with payload := (node.payload.dehydrate state).1 }
  simp only [after, List.foldl_cons, List.foldl_nil, Operation.run, lost]
  rw [hydrate, TreeM.onDetector_of_some bare]
  exact Forest.node?_modify_of_some bare _

/-- Whatever has been done with a tree, each of its detectors was made by one of the operations, and is as
it was made then as long as it has no context: no expression is remembered, no slot has a pipe or remembers
a value, and nothing but the mode may differ. No pass evaluates an expression there, and none changes more
than the mode. A detector that loses its context and gets another one is as a new one with that context,
again but for the mode. -/
theorem bare_as_new (host : Host σ) (start : σ) (operations : List (Operation σ κ)) {id : NodeId}
    {node : Node (Detector σ κ)}
    (found : (after host operations (start, {})).2.node? id = some node) :
    let world := after host operations (start, {})
    ∃ (proto : Proto σ κ) (place : Place) (dispatcher : Dispatcher σ) (records : List BindingRecord)
      (localNames : List String),
      .insert proto place dispatcher records localNames ∈ operations ∧
      let made := proto.instantiate place dispatcher records localNames
      (node.payload.scope = none →
        (∀ binding ∈ node.payload.bindings, binding.previous = .uninitialized ∧
          ∀ slot ∈ binding.slots, slot.pipe = none ∧ slot.last = .null) ∧
        node.payload.anew = { made with mode := node.payload.mode } ∧
        ∀ purpose top,
          (∃ mode, (mode = node.payload.mode ∨ mode = node.payload.mode.afterVisit) ∧
            (pass host purpose top world).2.2.node? id =
              some { node with payload := { node.payload with mode } }) ∧
          ∀ event, (id, event) ∉ tidings host purpose top world) ∧
      ∀ context locals, ∃ detector,
        (after host [.dehydrate id, .hydrate id context locals] world).2.node? id =
          some { node with payload := detector } ∧
        detector.anew = { made.hydrate context locals with mode := node.payload.mode } := by
  intro world
  have linked : Linked world.2 [] := after_linked host start operations
  obtain ⟨renewed, operation, among, fresh⟩ := after_madeBy host start operations id node.payload
    (by rw [Forest.payloadOf, found, Option.map_some])
  cases operation with
  | insert proto place dispatcher records localNames =>
    have blank : node.payload.blank = proto.instantiate place dispatcher records localNames :=
      (Option.some.inj fresh).symm
    refine ⟨proto, place, dispatcher, records, localNames, among, fun bare => ⟨?_, ?_, ?_⟩,
      fun context locals => ⟨_, after_rehydrate found context locals world.1, ?_⟩⟩
    · exact renewed.forgetful bare
    · rw [← blank]
      exact renewed.anew_eq bare
    · exact fun purpose top => pass_skips_bare host linked found bare purpose top world.1
    · have anew := node.payload.anew_dehydrate world.1
      rw [← blank]
      exact congrArg (Detector.hydrate context locals) anew
  | _ => cases fresh

end Tree
end ChangeWatch

namespace ChangeWatch.Shelf

/-- The family behind a detection and a loss: its first child has lost its context. -/
def bereft : List (Operation Nat Empty) := family ++ [.detect (nth 0), .dehydrate (nth 1)]

/-- The first child has been checked, and is as new but for its mode. -/
theorem bare_as_new_bereft :
    ∃ node, (Tree.after application bereft (1, {})).2.node? (nth 1) = some node ∧
      node.payload.scope = none ∧ node.payload.mode = .checked ∧
      ∃ proto place dispatcher records localNames,
        .insert proto place dispatcher records localNames ∈ bereft ∧
        node.payload.anew =
          { proto.instantiate place dispatcher records localNames with mode := .checked } := by
  have holds : ((Tree.after application bereft (1, {})).2.node? (nth 1)).any (fun node =>
      node.payload.scope.isNone && decide (node.payload.mode = .checked)) = true := by
    decide +kernel
  obtain ⟨node, found, holds⟩ := (Option.any_eq_true _ _).mp holds
  rw [Bool.and_eq_true, Option.isNone_iff_eq_none, decide_eq_true_eq] at holds
  obtain ⟨bare, mode⟩ := holds
  obtain ⟨proto, place, dispatcher, records, localNames, among, asNew, -⟩ :=
    Tree.bare_as_new application 1 bereft found
  obtain ⟨-, anew, -⟩ := asNew bare
  exact ⟨node, found, bare, mode, proto, place, dispatcher, records, localNames, among, mode ▸ anew⟩

end ChangeWatch.Shelf
