import ChangeWatch.Proofs.Lineage

/-!
What operations do to the nodes of a tree. One makes a node, one destroys a subtree, and all others keep
every node, with what becomes of its detector. What detectors have when they are made, and keep
whatever happens to them, all detectors have at any time. So detectors without a context, be they new or
have they lost it, are as they were made, but for the mode and the numbers of past evaluations and pipes,
which only tell later ones apart.
-/
namespace ChangeWatch

open Forest (Linked Within Every)
open Relation (ReflTransGen)
open Stateful (bind_of_error)

namespace Forest

/-- The subtree of a node is gone: its cells are empty, in their next generations. -/
structure Cleared (forest next : Forest α) (top : NodeId) : Prop where
  gone : ∀ id, forest.Within id top → next.outline[id.index]? = some (id.generation + 1, false)
  within : ∀ id, forest.Within id top → forest.contains id = true
  kept : ∀ index, (∀ id, forest.Within id top → id.index ≠ index) →
    next.outline[index]? = forest.outline[index]?
  payloads : ∀ id, ¬ forest.Within id top → next.payloadOf id = forest.payloadOf id

theorem Linked.cleared {forest : Forest α} (linked : forest.Linked []) {top : NodeId}
    (present : forest.contains top = true) :
    ∃ payloads next, forest.destroy top = .ok (payloads, next) ∧ Cleared forest next top := by
  obtain ⟨node, found⟩ := contains_iff.mp present
  have removed := linked.remove_of_some found
  obtain ⟨gone, payloads, last, course, destroyed, -, same⟩ := linked.destroy_course removed
  have outline := outline_remove linked removed
  have payloadOf := (samePayloads_remove linked removed).payloadOf
  obtain ⟨emptied, others⟩ := course.outline
  refine ⟨payloads, last, destroyed, ?_, ?_, ?_, ?_⟩
  · exact fun id within => emptied id ((same id).mpr within)
  · intro id within
    rw [contains_iff_outline, ← outline, ← contains_iff_outline]
    exact course.contains id ((same id).mpr within)
  · intro index apart
    rw [others index fun id member => apart id ((same id).mp member), outline]
  · intro id outside
    have stays : id ∉ gone := fun member => outside ((same id).mp member)
    rw [← payloadOf, Forest.payloadOf, course.node?, if_neg stays]
    rfl

end Forest

namespace Operation

/-- The detector that an operation adds to the tree. -/
def made? : Operation σ κ → Option (Detector σ κ)
  | insert proto place dispatcher records localNames =>
    some (proto.instantiate place dispatcher records localNames)
  | _ => none

theorem exists_of_made {operation : Operation σ κ} {detector : Detector σ κ}
    (made : operation.made? = some detector) :
    ∃ (proto : Proto σ κ) (place : Place) (dispatcher : Dispatcher σ) (records : List BindingRecord)
      (localNames : List String),
      detector = proto.instantiate place dispatcher records localNames := by
  cases operation with
  | insert => exact ⟨_, _, _, _, _, (Option.some.inj made).symm⟩
  | _ => cases made

def isDestroy : Operation σ κ → Bool
  | destroy _ => true
  | _ => false

/-- What an operation may do to a detector. Passes alone look at expressions. -/
def Turns (host : Host σ) : Operation σ κ → Detector σ κ → Detector σ κ → Prop
  | detect _ | verify _ => Detector.Lineage host
  | _ => ReflTransGen Detector.Quiet

theorem Turns.lineage {host : Host σ} {operation : Operation σ κ} {detector later : Detector σ κ}
    (turns : operation.Turns host detector later) : Detector.Lineage host detector later := by
  have quiet (quiet : ReflTransGen Detector.Quiet detector later) :
      Detector.Lineage host detector later :=
    quiet.lift id fun _ _ => .quiet
  cases operation with
  | detect | verify => exact turns
  | _ => exact quiet turns

/-- What an operation does to a tree: it makes a node, destroys a subtree, or keeps all nodes. -/
inductive Effect (host : Host σ) (operation : Operation σ κ) (world later : σ × Tree σ κ) : Prop where
  | inserted {detector : Detector σ κ} (made : operation.made? = some detector)
    (tree : later.2 = (Forest.insert world.2 detector).2)
  | cleared {top : NodeId} (destroys : operation = .destroy top)
    (cleared : Forest.Cleared world.2 later.2 top)
  | kept (made : operation.made? = none)
    (spares : ∀ top, operation = .destroy top → Forest.contains world.2 top = false)
    (kept : Tree.Kept (operation.Turns host) world later)

variable {host : Host σ} {world : σ × Tree σ κ}

theorem run_effect (host : Host σ) (linked : Linked world.2 []) (operation : Operation σ κ) :
    Effect host operation world (operation.run host world).2 := by
  have spares {other : Operation σ κ} (different : other.isDestroy = false) :
      ∀ top, other = .destroy top → Forest.contains world.2 top = false := by
    rintro top rfl
    cases different
  have restructured {change : Tree σ κ → Except ForestError (Tree σ κ)}
      (keeps : ∀ next, change world.2 = .ok next → next.outline = world.2.outline ∧
        Forest.SamePayloads world.2 next) :
      Tree.Kept (ReflTransGen Detector.Quiet) world
        (TreeM.restructure (fun tree => (change tree).map fun tree => ((), tree)) world).2 := by
    obtain ⟨state, tree⟩ := world
    cases changed : change tree with
    | error cause =>
      rw [TreeM.restructure_of_error (congrArg (Except.map fun tree => ((), tree)) changed)]
      exact Std.Refl.refl _
    | ok next =>
      rw [TreeM.restructure_of_ok (congrArg (Except.map fun tree => ((), tree)) changed)]
      exact .of_same (keeps next changed).1 (keeps next changed).2
  cases operation with
  | mutate change =>
    have same : Tree.Kept (ReflTransGen Detector.Quiet) world (change world.1, world.2) :=
      .of_same rfl ⟨rfl, rfl⟩
    exact .kept rfl (spares rfl) same
  | insert proto place dispatcher records localNames => exact .inserted rfl rfl
  | addChild parent child =>
    refine .kept rfl (spares rfl) (restructured fun next added => ?_)
    exact ⟨Forest.outline_addChild linked added, Forest.samePayloads_addChild linked added⟩
  | removeChild parent child =>
    refine .kept rfl (spares rfl) (restructured fun next removed => ?_)
    exact ⟨Forest.outline_removeChild linked removed, Forest.samePayloads_removeChild linked removed⟩
  | remove id =>
    refine .kept rfl (spares rfl) (restructured fun next removed => ?_)
    exact ⟨Forest.outline_remove linked removed, Forest.samePayloads_remove linked removed⟩
  | destroy id =>
    obtain ⟨state, tree⟩ := world
    cases present : Forest.contains tree id with
    | true =>
      obtain ⟨payloads, next, destroyed, cleared⟩ := linked.cleared present
      refine .cleared rfl ?_
      rw [run, Tree.destroy, Stateful.bind_of_ok (TreeM.restructure_of_ok destroyed state)]
      exact cleared
    | false =>
      have refused : Forest.destroy tree id = .error (.unknown id) := by
        rw [Forest.destroy, Forest.remove_of_none (Forest.contains_eq_false.mp present)]
        rfl
      refine .kept rfl (fun top same => by cases same; exact present) ?_
      rw [run, Tree.destroy, bind_of_error (TreeM.restructure_of_error refused state)]
      exact (Std.Refl.refl _ : Tree.Kept (ReflTransGen Detector.Quiet) (state, tree) (state, tree))
  | hydrate id context locals =>
    exact .kept rfl (spares rfl) (Tree.hydrate_kept id context locals world)
  | dehydrate id => exact .kept rfl (spares rfl) (Tree.dehydrate_kept id world)
  | setMode id mode => exact .kept rfl (spares rfl) (Tree.setMode_kept id mode world)
  | markPathToRoot id =>
    refine .kept rfl (spares rfl) ?_
    exact Tree.markUpward_along (R := Tree.Kept (ReflTransGen Detector.Quiet)) Tree.setMode_kept _ _
      world
  | detect id => exact .kept rfl (spares rfl) (Tree.pass_kept host .detect id world)
  | verify id => exact .kept rfl (spares rfl) (Tree.pass_kept host .verify id world)

/-- What a detector has when it is made, and keeps whatever an operation does to it, the detector
behind a handle has after the operation if the one before had it. -/
theorem Effect.keeps {P : Detector σ κ → Prop} {operation : Operation σ κ} {later : σ × Tree σ κ}
    (effect : Effect host operation world later) (linked : Linked world.2 [])
    (made : ∀ detector, operation.made? = some detector → P detector)
    (turns : ∀ detector next, operation.Turns host detector next → P detector → P next) {id : NodeId}
    (holds : ∀ detector, Forest.payloadOf world.2 id = some detector → P detector) :
    ∀ detector, Forest.payloadOf later.2 id = some detector → P detector := by
  intro detector found
  cases effect with
  | @inserted fresh made' tree =>
    rw [tree, Forest.payloadOf, Forest.node?_insert linked] at found
    split at found
    · cases found
      exact made _ made'
    · exact holds detector found
  | @cleared top _ cleared =>
    by_cases within : Within world.2 id top
    · have present := Forest.contains_iff_outline.mp (Forest.contains_of_payloadOf found)
      have same := Option.some.inj ((cleared.gone id within).symm.trans present)
      cases congrArg Prod.snd same
    · rw [cleared.payloads id within] at found
      exact holds detector found
  | kept _ _ kept =>
    have related := kept.detectors id
    rw [found] at related
    generalize before : Forest.payloadOf world.2 id = old at related
    cases related with
    | some became => exact turns _ detector became (holds _ before)

end Operation

/-- A slot without the number of its past pipes. -/
def PipeSlot.anew (slot : PipeSlot κ) : PipeSlot κ := { slot with made := 0 }

/-- An expression without the numbers of its past evaluations and pipes. -/
def Binding.anew (binding : Binding κ) : Binding κ :=
  { binding with evaluations := 0, slots := binding.slots.map PipeSlot.anew }

/-- A detector without the numbers of past evaluations and pipes. -/
def Detector.anew (detector : Detector σ κ) : Detector σ κ :=
  { detector with bindings := detector.bindings.map Binding.anew }

/-- A detector that has a context, or is as it was made. -/
def Detector.Renewed (detector : Detector σ κ) : Prop :=
  detector.scope = none → detector.bindings.map Binding.anew = detector.bindings.map Binding.blank

theorem PipeSlot.anew_clear (registry : Registry σ κ) (slot : PipeSlot κ) (state : σ) :
    (slot.clear registry state).1.anew = {} := by
  obtain ⟨pipe, last, made⟩ := slot
  cases pipe <;> rfl

theorem PipeSlot.anew_clearAll (registry : Registry σ κ) (slots : List (PipeSlot κ)) (state : σ) :
    (clearAll registry slots state).1.map anew = List.replicate slots.length {} := by
  induction slots generalizing state with
  | nil => rfl
  | cons slot slots ih =>
    exact congrArg₂ List.cons (slot.anew_clear registry state) (ih _)

namespace Binding

variable {binding : Binding κ}

theorem anew_clear (registry : Registry σ κ) (binding : Binding κ) (state : σ) :
    (binding.clear registry state).1.anew = binding.blank := by
  have slots := PipeSlot.anew_clearAll registry binding.slots state
  exact congrArg (fun slots => { binding with evaluations := 0, previous := .uninitialized, slots })
    slots

theorem anew_ofRecord (strategy : Strategy) (place : Place) (record : BindingRecord) :
    (ofRecord strategy place record : Binding κ).anew = ofRecord strategy place record := by
  simp only [anew, ofRecord, List.map_replicate]
  rfl

/-- An expression as it was made remembers nothing, and neither do its slots. -/
theorem forgetful_of_anew (renewed : binding.anew = binding.blank) :
    binding.previous = .uninitialized ∧
      ∀ slot ∈ binding.slots, slot.pipe = none ∧ slot.last = .null := by
  have previous : binding.previous = .uninitialized := congrArg Binding.previous renewed
  have slots : binding.slots.map PipeSlot.anew = List.replicate binding.slots.length {} :=
    congrArg Binding.slots renewed
  refine ⟨previous, fun slot member => ?_⟩
  have empty : slot.anew = {} :=
    List.eq_of_mem_replicate (slots ▸ List.mem_map_of_mem member)
  have pipe : slot.pipe = none := congrArg PipeSlot.pipe empty
  have last : slot.last = .null := congrArg PipeSlot.last empty
  exact ⟨pipe, last⟩

end Binding

namespace Detector

variable {host : Host σ} {detector later : Detector σ κ}

theorem anew_clearAll (registry : Registry σ κ) (bindings : List (Binding κ)) (state : σ) :
    (clearAll registry bindings state).1.map Binding.anew = bindings.map Binding.blank := by
  induction bindings generalizing state with
  | nil => rfl
  | cons binding bindings ih =>
    exact congrArg₂ List.cons (binding.anew_clear registry state) (ih _)

theorem renewed_instantiate (proto : Proto σ κ) (place : Place) (dispatcher : Dispatcher σ)
    (records : List BindingRecord) (localNames : List String) :
    (proto.instantiate place dispatcher records localNames).Renewed := by
  intro _
  simp only [Proto.instantiate, List.map_map]
  congr 1
  funext entry
  simp only [Function.comp_apply, Binding.anew_ofRecord, Binding.blank_ofRecord]

/-- Without its context, a detector is as it was made, but for its mode. -/
theorem anew_dehydrate (detector : Detector σ κ) (state : σ) :
    (detector.dehydrate state).1.anew = { detector.blank with mode := detector.mode } := by
  have bindings := anew_clearAll detector.registry detector.bindings state
  exact congrArg (fun bindings => { detector with bindings, scope := none }) bindings

theorem renewed_dehydrate (detector : Detector σ κ) (state : σ) :
    (detector.dehydrate state).1.Renewed := by
  intro _
  have anew := congrArg Detector.bindings (detector.anew_dehydrate state)
  have blank := congrArg Detector.bindings (Quiet.dehydrate detector state).blank
  exact anew.trans blank.symm

theorem Quiet.renewed (quiet : Quiet detector later) (renewed : detector.Renewed) :
    later.Renewed := by
  cases quiet with
  | setMode mode => exact renewed
  | hydrate context locals => exact nofun
  | dehydrate state => exact renewed_dehydrate detector state

/-- A check is for detectors with a context only. -/
theorem Next.renewed (next : Next host detector later) (renewed : detector.Renewed) :
    later.Renewed := by
  cases next with
  | quiet quiet => exact quiet.renewed renewed
  | check purpose state =>
    cases given : detector.scope with
    | none => rwa [check_of_none host given]
    | some scope =>
      rw [check_of_scope host given]
      exact fun bare => by cases given.symm.trans bare

theorem Lineage.renewed (lineage : Lineage host detector later) (renewed : detector.Renewed) :
    later.Renewed := by
  induction lineage with
  | refl => exact renewed
  | tail _ next ih => exact next.renewed ih

theorem Renewed.anew_eq (renewed : detector.Renewed) (bare : detector.scope = none) :
    detector.anew = { detector.blank with mode := detector.mode } := by
  rw [anew, renewed bare, blank, bare]

theorem Renewed.forgetful (renewed : detector.Renewed) (bare : detector.scope = none) :
    ∀ binding ∈ detector.bindings, binding.previous = .uninitialized ∧
      ∀ slot ∈ binding.slots, slot.pipe = none ∧ slot.last = .null :=
  fun _ member => Binding.forgetful_of_anew (List.map_inj_left.mp (renewed bare) _ member)

/-- What becomes of a detector, made by one of the given operations, stays as it was made as long as it
has no context. -/
structure MadeBy (operations : List (Operation σ κ)) (detector : Detector σ κ) : Prop where
  renewed : detector.Renewed
  made : ∃ operation ∈ operations, operation.made? = some detector.blank

theorem MadeBy.lineage {operations : List (Operation σ κ)} (made : detector.MadeBy operations)
    (lineage : Lineage host detector later) : later.MadeBy operations :=
  ⟨lineage.renewed made.renewed, lineage.blank.symm ▸ made.made⟩

end Detector

namespace Tree

/-- What every detector has when one of the operations makes it, and keeps whatever happens to it, all
detectors have in the end. -/
theorem after_every (host : Host σ) (state : σ) {operations : List (Operation σ κ)}
    {P : Detector σ κ → Prop}
    (made : ∀ operation ∈ operations, ∀ detector, operation.made? = some detector → P detector)
    (lineage : ∀ detector later, Detector.Lineage host detector later → P detector → P later) :
    Every P (after host operations (state, {})).2 := by
  have kept : Linked (after host operations (state, {})).2 [] ∧
      Every P (after host operations (state, {})).2 := by
    refine after_induction (P := fun world => Linked world.2 [] ∧ Every P world.2)
      ⟨.empty, .empty⟩ ?_
    rintro operation among world ⟨linked, every⟩
    refine ⟨operation.run_linked linked, fun id => ?_⟩
    exact (operation.run_effect host linked).keeps linked (made operation among)
      (fun detector later turns => lineage detector later turns.lineage) (every id)
  exact kept.2

/-- Whatever has been done with a tree, each of its detectors was made by one of the operations, and
remembers nothing as long as it has no context. -/
theorem after_madeBy (host : Host σ) (state : σ) (operations : List (Operation σ κ)) :
    Every (Detector.MadeBy operations) (after host operations (state, {})).2 := by
  refine after_every host state (fun operation among detector fresh => ?_)
    fun detector later lineage made => made.lineage lineage
  obtain ⟨proto, place, dispatcher, records, localNames, rfl⟩ := Operation.exists_of_made fresh
  refine ⟨Detector.renewed_instantiate proto place dispatcher records localNames, operation, among, ?_⟩
  rw [Detector.blank_instantiate]
  exact fresh

end Tree
end ChangeWatch
