import Mathlib.Algebra.Group.Nat.Defs
import ChangeWatch.Proofs.Grouping
import ChangeWatch.Proofs.Effects

/-!
Handles. A cell counts in its generation how often a node of it has been destroyed, and a handle keeps
the count of the time when its node was made. So a handle finds its own detector, whatever happens in
between, until that one is destroyed, and nothing from then on, unless the count has come round to where
it was.
-/
namespace ChangeWatch

open Forest (Linked Within)
open Stateful (bind_of_error)

/-- The handles that an operation is given. -/
def Operation.handles : Operation σ κ → List NodeId
  | mutate _ | insert _ _ _ _ _ => []
  | addChild parent child | removeChild parent child => [parent, child]
  | remove id | destroy id | hydrate id _ _ | dehydrate id | setMode id _ | markPathToRoot id
  | detect id | verify id => [id]

namespace Tree

/-- The handles that a history hands out, in the order in which it makes nodes. -/
def issued (host : Host σ) : List (Operation σ κ) → σ × Tree σ κ → List NodeId
  | [], _ => []
  | operation :: operations, world =>
    let later := issued host operations (operation.run host world).2
    match operation.made? with
    | some detector => (Forest.insert world.2 detector).1 :: later
    | none => later

/-- Whether a step has left a cell empty that was full: one time or none. -/
def freed (before after : Tree σ κ) (index : Nat) : Nat :=
  (before.full index && !after.full index).toNat

/-- How often the steps of a history leave a cell empty that was full. -/
def frees (host : Host σ) : List (Operation σ κ) → σ × Tree σ κ → Nat → Nat
  | [], _, _ => 0
  | operation :: operations, world, index =>
    let later := (operation.run host world).2
    freed world.2 later.2 index + frees host operations later index

/-- Some step of a history destroys a node: the node itself, or one above it. -/
def Destroyed (host : Host σ) (id : NodeId) : List (Operation σ κ) → σ × Tree σ κ → Prop
  | [], _ => False
  | operation :: operations, world =>
    (∃ top, operation = .destroy top ∧ Within world.2 id top) ∨
      Destroyed host id operations (operation.run host world).2

variable {host : Host σ} {world : σ × Tree σ κ} {id : NodeId}

theorem frees_append (first second : List (Operation σ κ)) (world : σ × Tree σ κ) (index : Nat) :
    frees host (first ++ second) world index =
      frees host first world index + frees host second (after host first world) index := by
  induction first generalizing world with
  | nil => exact (Nat.zero_add _).symm
  | cons operation first ih =>
    simp only [List.cons_append, frees, ih, Nat.add_assoc]
    rfl

theorem frees_le_length (operations : List (Operation σ κ)) (world : σ × Tree σ κ) (index : Nat) :
    frees host operations world index ≤ operations.length := by
  induction operations generalizing world with
  | nil => exact Nat.le_refl 0
  | cons operation operations ih =>
    have rest := ih (operation.run host world).2
    have first := Bool.toNat_le (world.2.full index && !(operation.run host world).2.2.full index)
    simp only [frees, freed, List.length_cons]
    omega

/-- Generations count, modulo `2 ^ 32`; cells that are still to come start at zero. -/
structure Counted (count : Nat → Nat) (tree : Tree σ κ) : Prop where
  cells : ∀ index generation held, tree.outline[index]? = some (generation, held) →
    generation = UInt32.ofNat (count index)
  beyond : ∀ index, tree.outline[index]? = none → count index = 0

theorem freed_of_outline {before after : Tree σ κ} {index : Nat}
    (same : after.outline[index]? = before.outline[index]?) : freed before after index = 0 := by
  simp [freed, Forest.full, same]

theorem full_le_freed (before after : Tree σ κ) (index : Nat) :
    (before.full index).toNat ≤ freed before after index + (after.full index).toNat := by
  unfold freed
  cases before.full index <;> cases after.full index <;> decide

theorem Counted.step {count : Nat → Nat} {operation : Operation σ κ} {later : σ × Tree σ κ}
    (counted : Counted count world.2) (linked : Linked world.2 [])
    (effect : Operation.Effect host operation world later) :
    Counted (fun index => count index + freed world.2 later.2 index) later.2 := by
  have same {index : Nat} (drawn : later.2.outline[index]? = world.2.outline[index]?) :
      (∀ generation held, later.2.outline[index]? = some (generation, held) →
          generation = UInt32.ofNat (count index + freed world.2 later.2 index)) ∧
        (later.2.outline[index]? = none → count index + freed world.2 later.2 index = 0) := by
    rw [freed_of_outline drawn, drawn]
    exact ⟨counted.cells index, counted.beyond index⟩
  suffices cells : ∀ index, (∀ generation held, later.2.outline[index]? = some (generation, held) →
        generation = UInt32.ofNat (count index + freed world.2 later.2 index)) ∧
      (later.2.outline[index]? = none → count index + freed world.2 later.2 index = 0) from
    ⟨fun index => (cells index).1, fun index => (cells index).2⟩
  intro index
  cases effect with
  | @inserted detector made tree =>
    obtain ⟨vacant, drawn⟩ := Forest.outline_insert linked detector
    rw [← tree] at drawn
    by_cases here : index = (Forest.insert world.2 detector).1.index
    · have filled := (drawn index).trans (if_pos here)
      have none : freed world.2 later.2 index = 0 := by
        simp only [freed, Forest.full_of_outline filled, Bool.not_true, Bool.and_false, Bool.toNat_false]
      rw [none, filled, here]
      refine ⟨?_, nofun⟩
      rintro generation held ⟨⟩
      rcases vacant with empty | ⟨beyond, zero⟩
      · exact counted.cells _ _ _ empty
      · rw [zero, Nat.add_zero, counted.beyond _ beyond]
        rfl
    · exact same ((drawn index).trans (if_neg here))
  | @cleared top destroys cleared =>
    by_cases inside : ∃ id, Within world.2 id top ∧ id.index = index
    · obtain ⟨id, within, rfl⟩ := inside
      have present := cleared.within id within
      have emptied := cleared.gone id within
      have once : freed world.2 later.2 id.index = 1 := by
        simp only [freed, Forest.full_of_contains present, Forest.full_of_outline emptied, Bool.not_false,
          Bool.and_true, Bool.toNat_true]
      rw [once, emptied]
      refine ⟨?_, nofun⟩
      rintro generation held ⟨⟩
      rw [counted.cells _ _ _ (Forest.contains_iff_outline.mp present), UInt32.ofNat_add]
      rfl
    · exact same (cleared.kept index fun id within here => inside ⟨id, within, here⟩)
  | kept made spares kept => exact same (congrArg (·[index]?) kept.outline)

/-- A handle whose count is behind the count of its cell finds nothing. -/
theorem Counted.not_contains {count : Nat → Nat} {tree : Tree σ κ} (counted : Counted count tree)
    {old : Nat} (generation : id.generation = UInt32.ofNat old) (behind : old < count id.index)
    (bounded : count id.index < 2 ^ 32) : Forest.contains tree id = false := by
  by_contra present
  have drawn := Forest.contains_iff_outline.mp (Bool.of_not_eq_false present)
  have same := (counted.cells _ _ _ drawn).symm.trans generation
  have counts := congrArg UInt32.toNat same
  rw [UInt32.toNat_ofNat_of_lt' bounded, UInt32.toNat_ofNat_of_lt' (Nat.lt_trans behind bounded)] at counts
  omega

theorem Counted.empty : Counted (fun _ => 0) ({} : Tree σ κ) where
  cells index generation held drawn := by cases drawn
  beyond _ _ := rfl

/-- The generations at any time of a history, from those at its start. -/
theorem Counted.after {count : Nat → Nat} (host : Host σ) (counted : Counted count world.2)
    (linked : Linked world.2 []) (operations : List (Operation σ κ)) :
    Counted (fun index => count index + frees host operations world index)
        (Tree.after host operations world).2 ∧
      Linked (Tree.after host operations world).2 [] := by
  induction operations generalizing count world with
  | nil => exact ⟨counted, linked⟩
  | cons operation operations ih =>
    obtain ⟨ends, stays⟩ := ih (counted.step linked (operation.run_effect host linked))
      (operation.run_linked linked)
    simp only [Nat.add_assoc] at ends
    exact ⟨ends, stays⟩

/-- A new node gets a cell that is not full, and the count of this cell. -/
theorem Counted.insert {count : Nat → Nat} {tree : Tree σ κ} (counted : Counted count tree)
    (linked : Linked tree []) (detector : Detector σ κ) :
    let id := (Forest.insert tree detector).1
    id.generation = UInt32.ofNat (count id.index) ∧ tree.full id.index = false ∧
      (Forest.insert tree detector).2.full id.index = true := by
  intro id
  obtain ⟨vacant, drawn⟩ := Forest.outline_insert linked detector
  refine ⟨?_, ?_, Forest.full_of_outline ((drawn id.index).trans (if_pos rfl))⟩
  · rcases vacant with empty | ⟨beyond, zero⟩
    · exact counted.cells _ _ _ empty
    · rw [counted.beyond _ beyond]
      exact zero
  · rcases vacant with empty | ⟨beyond, -⟩
    · exact Forest.full_of_outline empty
    · rw [Forest.full, beyond]
      rfl

/-- The generation of a handle that is handed out in a history is the count of its cell at that time.
If the cell was full at the start, it has been emptied by then. -/
theorem generation_of_issued {count : Nat → Nat} (counted : Counted count world.2)
    (linked : Linked world.2 []) {operations : List (Operation σ κ)}
    (member : id ∈ issued host operations world) :
    ∃ now, id.generation = UInt32.ofNat now ∧
      count id.index + (world.2.full id.index).toNat ≤ now ∧
      now ≤ count id.index + frees host operations world id.index := by
  induction operations generalizing count world with
  | nil => cases member
  | cons operation operations ih =>
    have effect := operation.run_effect host linked
    have later (member : id ∈ issued host operations (operation.run host world).2) :
        ∃ now, id.generation = UInt32.ofNat now ∧
          count id.index + (world.2.full id.index).toNat ≤ now ∧
          now ≤ count id.index + frees host (operation :: operations) world id.index := by
      obtain ⟨now, generation, least, most⟩ :=
        ih (counted.step linked effect) (operation.run_linked linked) member
      have emptied := full_le_freed world.2 (operation.run host world).2.2 id.index
      refine ⟨now, generation, by omega, ?_⟩
      simp only [frees]
      omega
    simp only [issued] at member
    split at member
    · rename_i detector made
      rcases List.mem_cons.mp member with rfl | member
      · obtain ⟨generation, empty, -⟩ := counted.insert linked detector
        refine ⟨_, generation, ?_, Nat.le_add_right _ _⟩
        rw [empty]
        exact Nat.le_refl _
      · exact later member
    · exact later member

theorem nodup_issued {count : Nat → Nat} (counted : Counted count world.2)
    (linked : Linked world.2 []) (operations : List (Operation σ κ))
    (bounded : ∀ index, count index + frees host operations world index < 2 ^ 32) :
    (issued host operations world).Nodup := by
  induction operations generalizing count world with
  | nil => exact List.nodup_nil
  | cons operation operations ih =>
    have effect := operation.run_effect host linked
    have counted' := counted.step linked effect
    have linked' : Linked (operation.run host world).2.2 [] := operation.run_linked linked
    simp only [frees, ← Nat.add_assoc] at bounded
    have rest := ih counted' linked' bounded
    simp only [issued]
    split
    · rename_i detector made
      obtain ⟨generation, -, filled⟩ := counted.insert linked detector
      refine List.nodup_cons.mpr ⟨fun member => ?_, rest⟩
      obtain ⟨now, again, least, most⟩ := generation_of_issued counted' linked' member
      have tree : (operation.run host world).2.2 = (Forest.insert world.2 detector).2 := by
        cases effect with
        | inserted made' tree =>
          cases made.symm.trans made'
          exact tree
        | cleared destroys =>
          rw [destroys] at made
          cases made
        | kept made' => cases made.symm.trans made'
      rw [tree, filled] at least
      have bound := bounded (Forest.insert world.2 detector).1.index
      have counts := congrArg UInt32.toNat (generation.symm.trans again)
      rw [UInt32.toNat_ofNat_of_lt' (by change _ < 2 ^ 32; omega),
        UInt32.toNat_ofNat_of_lt' (by change _ < 2 ^ 32; omega)] at counts
      rw [Bool.toNat_true] at least
      omega
    · exact rest

/-- A node is found, and what its detector has become, until a step destroys it; that step leaves its
cell empty. -/
theorem found_or_destroyed (host : Host σ) (linked : Linked world.2 []) {detector : Detector σ κ}
    (found : Forest.payloadOf world.2 id = some detector) (operations : List (Operation σ κ)) :
    Destroyed host id operations world ∧ 1 ≤ frees host operations world id.index ∨
      ¬ Destroyed host id operations world ∧
        ∃ later, Forest.payloadOf (Tree.after host operations world).2 id = some later ∧
          Detector.Lineage host detector later := by
  induction operations generalizing world detector with
  | nil => exact .inr ⟨nofun, detector, found, .refl⟩
  | cons operation operations ih =>
    have effect := operation.run_effect host linked
    have linked' : Linked (operation.run host world).2.2 [] := operation.run_linked linked
    have present : Forest.contains world.2 id = true := Forest.contains_of_payloadOf found
    by_cases destroys : ∃ top, operation = .destroy top ∧ Within world.2 id top
    · obtain ⟨top, is, within⟩ := destroys
      refine .inl ⟨.inl ⟨top, is, within⟩, ?_⟩
      have emptied : (operation.run host world).2.2.full id.index = false := by
        cases effect with
        | inserted made => rw [is] at made; cases made
        | cleared destroys cleared =>
          cases is.symm.trans destroys
          exact Forest.full_of_outline (cleared.gone id within)
        | kept made spares =>
          cases (spares top is).symm.trans (linked.contains_of_within present within)
      simp only [frees, freed, Forest.full_of_contains present, emptied, Bool.not_false,
        Bool.and_true, Bool.toNat_true]
      omega
    · have stays : ∃ next, Forest.payloadOf (operation.run host world).2.2 id = some next ∧
          Detector.Lineage host detector next := by
        cases effect with
        | @inserted new made tree =>
          refine ⟨detector, ?_, .refl⟩
          rw [tree, Forest.payloadOf_insert_of_contains linked present]
          exact found
        | cleared destroys' cleared =>
          refine ⟨detector, ?_, .refl⟩
          rw [cleared.payloads id fun within => destroys ⟨_, destroys', within⟩]
          exact found
        | kept made spares kept =>
          have related := kept.detectors id
          rw [found] at related
          cases became : Forest.payloadOf (operation.run host world).2.2 id with
          | none => rw [became] at related; cases related
          | some next =>
            rw [became] at related
            cases related with
            | some turns => exact ⟨next, rfl, turns.lineage⟩
      obtain ⟨next, found', lineage⟩ := stays
      rcases ih linked' found' with ⟨destroyed, emptied⟩ | ⟨spared, later, held, further⟩
      · refine .inl ⟨.inr destroyed, ?_⟩
        simp only [frees]
        omega
      · exact .inr ⟨fun destroyed => destroyed.elim destroys spared, later, held,
          lineage.trans further⟩

/-- What a handle is good for once its node is gone: it finds nothing, and whatever is asked with it is
refused and changes nothing. -/
structure Stale (host : Host σ) (world : σ × Tree σ κ) (id : NodeId) : Prop where
  contains : Forest.contains world.2 id = false
  node? : Forest.node? world.2 id = none
  mode : mode id world = (.error (.forest (.unknown id)), world)
  parent : parent id world = (.error (.forest (.unknown id)), world)
  children : children id world = (.error (.forest (.unknown id)), world)
  isHydrated : isHydrated id world = (.error (.forest (.unknown id)), world)
  sole : ∀ operation : Operation σ κ, operation.handles = [id] →
    operation.run host world = (.error (.forest (.unknown id)), world)
  among : ∀ operation : Operation σ κ, id ∈ operation.handles →
    ∃ cause, operation.run host world = (.error (.forest cause), world)
  tick : ∀ enforceNoNewChanges, LifeCycle.tick host { root := id, enforceNoNewChanges } world =
    (.error (.forest (.unknown id)), world)
  propagation : ∀ propagation : Propagation,
    propagation.apply id world = (.error (.forest (.unknown id)), world)

section Absent

variable {tree : Tree σ κ} (absent : tree.node? id = none) (state : σ)
include absent

theorem setMode_of_none (mode : Mode) :
    setMode id mode (state, tree) = (.error (.forest (.unknown id)), (state, tree)) :=
  TreeM.onDetector_of_none absent

theorem hydrate_of_none (context : Value) (locals : Locals) :
    hydrate id context locals (state, tree) = (.error (.forest (.unknown id)), (state, tree)) :=
  TreeM.onDetector_of_none absent

theorem dehydrate_of_none :
    dehydrate id (state, tree) = (.error (.forest (.unknown id)), (state, tree)) :=
  TreeM.onDetector_of_none absent

theorem remove_of_none :
    remove id (state, tree) = (.error (.forest (.unknown id)), (state, tree)) := by
  refine TreeM.restructure_of_error ?_ state
  rw [Forest.remove_of_none absent]
  rfl

theorem mark_of_none :
    markPathToRootAsCheckOnce id (state, tree) = (.error (.forest (.unknown id)), (state, tree)) :=
  bind_of_error (TreeM.onDetector_of_none absent)

theorem destroy_of_none :
    destroy id (state, tree) = (.error (.forest (.unknown id)), (state, tree)) := by
  refine bind_of_error (TreeM.restructure_of_error ?_ state)
  rw [Forest.destroy, Forest.remove_of_none absent]
  rfl

/-- An operation on a single node that is not there is refused for want of it. -/
theorem run_of_sole {operation : Operation σ κ} (sole : operation.handles = [id]) :
    operation.run host (state, tree) = (.error (.forest (.unknown id)), (state, tree)) := by
  cases operation with
  | mutate | insert | addChild | removeChild => cases sole
  | remove => cases sole; exact remove_of_none absent state
  | destroy => cases sole; exact destroy_of_none absent state
  | hydrate other context locals => cases sole; exact hydrate_of_none absent state context locals
  | dehydrate => cases sole; exact dehydrate_of_none absent state
  | setMode other mode => cases sole; exact setMode_of_none absent state mode
  | markPathToRoot => cases sole; exact mark_of_none absent state
  | detect => cases sole; exact pass_of_none absent state host .detect
  | verify => cases sole; exact pass_of_none absent state host .verify

/-- No link is made or cut at a node that is not there. -/
theorem run_of_among (linked : Linked tree []) {operation : Operation σ κ}
    (among : id ∈ operation.handles) :
    ∃ cause, operation.run host (state, tree) = (.error (.forest cause), (state, tree)) := by
  have alone (sole : operation.handles = [id]) :
      ∃ cause, operation.run host (state, tree) = (.error (.forest cause), (state, tree)) :=
    ⟨_, run_of_sole absent state sole⟩
  have refused (change : Tree σ κ → Except ForestError (Tree σ κ))
      (never : ∀ next, change tree ≠ .ok next) : ∃ cause,
        TreeM.restructure (fun tree => (change tree).map fun tree => ((), tree)) (state, tree) =
          (.error (.forest cause), (state, tree)) := by
    cases changed : change tree with
    | error cause =>
      exact ⟨cause, TreeM.restructure_of_error
        (congrArg (Except.map fun tree => ((), tree)) changed) state⟩
    | ok next => exact absurd changed (never next)
  have gone {parent child : NodeId} (among : id ∈ [parent, child])
      (there : Forest.contains tree parent = true) (here : Forest.contains tree child = true) :
      False := by
    have nothing := Forest.contains_eq_false.mpr absent
    rcases List.mem_pair.mp among with rfl | rfl
    · cases nothing.symm.trans there
    · cases nothing.symm.trans here
  cases operation with
  | mutate | insert => cases among
  | addChild parent child =>
    refine refused (Forest.addChild · parent child) fun next added => ?_
    obtain ⟨-, there, here, -⟩ := (Forest.addChild_eq_ok linked parent child).mp added
    exact gone among there here
  | removeChild parent child =>
    refine refused (Forest.removeChild · parent child) fun next removed => ?_
    obtain ⟨-, listed⟩ := (Forest.removeChild_eq_ok linked parent child).mp removed
    exact gone among (Forest.contains_of_childrenOf listed) (linked.contains_child listed)
  | remove | destroy | hydrate | dehydrate | setMode | markPathToRoot | detect | verify =>
    cases List.mem_singleton.mp among
    exact alone rfl

end Absent

theorem Stale.of_not_contains (linked : Linked world.2 [])
    (absent : Forest.contains world.2 id = false) : Stale host world id := by
  obtain ⟨state, tree⟩ := world
  have nothing := Forest.contains_eq_false.mp absent
  have unknown : tree.node id = .error (.unknown id) := by
    rw [Forest.node, nothing]
  refine ⟨absent, nothing, TreeM.onDetector_of_none nothing, TreeM.restructure_of_error ?_ state,
    TreeM.restructure_of_error ?_ state, TreeM.onDetector_of_none nothing,
    fun _ => run_of_sole nothing state, fun _ => run_of_among nothing state linked,
    fun _ => bind_of_error (pass_of_none nothing state host .detect), fun propagation => ?_⟩
  · rw [unknown]
    rfl
  · rw [unknown]
    rfl
  · cases propagation with
    | fromRoot => exact mark_of_none nothing state
    | once | never | always => exact setMode_of_none nothing state _

/-- While no cell is emptied `2 ^ 32` times, no handle is handed out twice, and every handle finds the
detector that it was handed out for until that is destroyed, and is good for nothing from then on. -/
theorem handles_never_alias (host : Host σ) (state : σ) (operations : List (Operation σ κ))
    (bounded : ∀ index, frees host operations (state, {}) index < 2 ^ 32) :
    (issued host operations (state, {})).Nodup ∧
      ∀ before proto place dispatcher records localNames later rest,
        operations = before ++ .insert proto place dispatcher records localNames :: (later ++ rest) →
        let detector := proto.instantiate place dispatcher records localNames
        let start := after host before (state, {})
        let id := (Forest.insert start.2 detector).1
        let made := (start.1, (Forest.insert start.2 detector).2)
        let world := after host later made
        insert detector start = (.ok id, made) ∧
          (¬ Destroyed host id later made → ∃ current,
            Forest.payloadOf world.2 id = some current ∧ Detector.Lineage host detector current ∧
              current.blank = detector) ∧
          (Destroyed host id later made → Stale host world id) := by
  have counted : Counted (fun _ => 0) (state, ({} : Tree σ κ)).2 := .empty
  have linked : Linked (state, ({} : Tree σ κ)).2 [] := .empty
  refine ⟨nodup_issued counted linked operations (by simpa only [Nat.zero_add] using bounded), ?_⟩
  intro before proto place dispatcher records localNames later rest split detector start id made world
  obtain ⟨counted, linked⟩ := counted.after host linked before
  simp only [Nat.zero_add] at counted
  refine ⟨rfl, ?_⟩
  have generation : id.generation = UInt32.ofNat (frees host before (state, {}) id.index) :=
    (counted.insert linked detector).1
  have effect : Operation.Effect host (.insert proto place dispatcher records localNames) start made :=
    .inserted rfl rfl
  have made_counted := counted.step linked effect
  have made_linked : Linked made.2 [] := linked.insert detector
  have found : Forest.payloadOf made.2 id = some detector := by
    rw [Forest.payloadOf, Forest.node?_insert linked, if_pos rfl]
    rfl
  rcases found_or_destroyed host made_linked found later with
    ⟨destroyed, emptied⟩ | ⟨spared, current, held, lineage⟩
  · refine ⟨fun spared => absurd destroyed spared, fun _ => ?_⟩
    obtain ⟨ends, stays⟩ : Counted (fun index => frees host before (state, {}) index +
        freed start.2 made.2 index + frees host later made index) world.2 ∧ Linked world.2 [] :=
      made_counted.after host made_linked later
    have bound : frees host before (state, {}) id.index + (freed start.2 made.2 id.index +
        (frees host later made id.index + frees host rest world id.index)) < 2 ^ 32 := by
      have whole := bounded id.index
      rw [split, frees_append, frees, frees_append] at whole
      exact whole
    exact .of_not_contains stays (ends.not_contains generation (by omega) (by omega))
  · refine ⟨fun _ => ⟨current, held, lineage, ?_⟩, fun destroyed => absurd destroyed spared⟩
    exact lineage.blank.trans (Detector.blank_instantiate proto place dispatcher records localNames)

section Reuse

/-- A detector without expressions, which nobody listens to. -/
def insertion (name : String) : Operation Unit Empty :=
  .insert
    { name, registry := .default { supports := nofun, transform := nofun, destroy := nofun },
      strategy := .compiled }
    (.detector 0) .silent [] []

/-- A root is destroyed with its child, and another detector gets the cell of the child. -/
def reuse : List (Operation Unit Empty) :=
  [insertion "root", insertion "child", .addChild ⟨0, 0⟩ ⟨1, 0⟩, .destroy ⟨0, 0⟩, insertion "other"]

theorem handles_never_alias_reuse :
    (∀ index, frees .bare reuse ((), {}) index < 2 ^ 32) ∧
      issued .bare reuse ((), {}) = [⟨0, 0⟩, ⟨1, 0⟩, ⟨1, 1⟩] ∧
      [NodeId.mk 0 0, ⟨1, 0⟩, ⟨1, 1⟩].Nodup ∧
      Stale .bare (after .bare reuse ((), {})) ⟨1, 0⟩ := by
  have bounded (index : Nat) : frees .bare reuse ((), {}) index < 2 ^ 32 :=
    Nat.lt_of_le_of_lt (frees_le_length reuse _ index) (by decide)
  have handles : issued .bare reuse ((), {}) = [⟨0, 0⟩, ⟨1, 0⟩, ⟨1, 1⟩] := by decide +kernel
  obtain ⟨distinct, found⟩ := handles_never_alias .bare () reuse bounded
  obtain ⟨-, -, stale⟩ := found [insertion "root"] _ _ _ _ _ (reuse.drop 2) [] rfl
  have link : Forest.parentOf (after .bare (reuse.take 3) ((), {})).2 ⟨1, 0⟩ = some ⟨0, 0⟩ := by
    decide +kernel
  have destroyed : Destroyed .bare ⟨1, 0⟩ (reuse.drop 2) (after .bare (reuse.take 2) ((), {})) :=
    .inr (.inl ⟨⟨0, 0⟩, rfl, .single link⟩)
  exact ⟨bounded, handles, handles ▸ distinct, stale destroyed⟩

end Reuse

end Tree
end ChangeWatch
