import ChangeWatch.Proofs.Forest.Outline
import ChangeWatch.Proofs.Forest.Payloads
import ChangeWatch.Proofs.Forest.Reached
import ChangeWatch.Proofs.Standstill
import ChangeWatch.Proofs.Strategies

/-!
What becomes of detectors in a tree. Whatever happens to a detector happens behind its handle and is one
of a few things, none of which touches what it was made of. Operations that neither make nor destroy
nodes leave the outline of the forest as it is.
-/
namespace ChangeWatch

open Forest (Linked)
open Relation (ReflTransGen)
open Stateful (Along)

/-- An expression without what is remembered of it. -/
def Binding.blank (binding : Binding κ) : Binding κ :=
  { binding with
    evaluations := 0
    previous := .uninitialized
    slots := List.replicate binding.slots.length {} }

/-- A detector without its context, its mode and what it remembers: what it was made of. -/
def Detector.blank (detector : Detector σ κ) : Detector σ κ :=
  { detector with bindings := detector.bindings.map Binding.blank, scope := none, mode := .checkAlways }

/-- What may happen to a detector without a look at its expressions. -/
inductive Detector.Quiet : Detector σ κ → Detector σ κ → Prop where
  | setMode (detector : Detector σ κ) (mode : Mode) : Quiet detector { detector with mode }
  | hydrate (detector : Detector σ κ) (context : Value) (locals : Locals) :
    Quiet detector (detector.hydrate context locals)
  | dehydrate (detector : Detector σ κ) (state : σ) : Quiet detector (detector.dehydrate state).1

/-- What may happen to a detector. -/
inductive Detector.Next (host : Host σ) : Detector σ κ → Detector σ κ → Prop where
  | quiet {detector later : Detector σ κ} (quiet : Quiet detector later) : Next host detector later
  | check (detector : Detector σ κ) (purpose : Purpose) (state : σ) :
    Next host detector (detector.check host purpose state).1.2

/-- What one detector becomes in the course of time. -/
abbrev Detector.Lineage (host : Host σ) : Detector σ κ → Detector σ κ → Prop :=
  ReflTransGen (Next host)

theorem PipeSlot.clearAll_length (registry : Registry σ κ) (slots : List (PipeSlot κ)) (state : σ) :
    (clearAll registry slots state).1.length = slots.length := by
  induction slots generalizing state with
  | nil => rfl
  | cons slot slots ih =>
    simp only [clearAll, Bind.bind, StateT.bind]
    generalize slot.clear registry state = cleared
    obtain ⟨slot', between⟩ := cleared
    exact congrArg Nat.succ (ih between)

theorem PipeSlot.host_length (registry : Registry σ κ) (place : Place) (index : Nat) (name : String)
    (value : Value) (args : List Value) (state : σ) (slots : List (PipeSlot κ)) :
    ((host registry place).apply index name value args (state, slots)).2.2.length = slots.length := by
  simp only [host]
  split
  · rfl
  · split <;> exact List.length_set

namespace Binding

theorem blank_with (binding : Binding κ) (evaluations : Nat) (previous : Cached)
    {slots : List (PipeSlot κ)} (same : slots.length = binding.slots.length) :
    { binding with evaluations, previous, slots }.blank = binding.blank := by
  simp only [blank, same]

theorem blank_clear (registry : Registry σ κ) (binding : Binding κ) (state : σ) :
    (binding.clear registry state).1.blank = binding.blank :=
  binding.blank_with _ _ (PipeSlot.clearAll_length registry binding.slots state)

/-- States with the same number of slots. -/
private def SameSlots (first second : σ × List (PipeSlot κ)) : Prop :=
  second.2.length = first.2.length

private instance : Std.Refl (SameSlots (σ := σ) (κ := κ)) where
  refl _ := rfl

private instance : Trans (SameSlots (σ := σ) (κ := κ)) SameSlots SameSlots where
  trans first second := Eq.trans second first

theorem blank_evaluate (host : Host σ) (registry : Registry σ κ) (scope : Scope)
    (binding : Binding κ) (state : σ) :
    (binding.evaluate host registry scope state).1.2.blank = binding.blank := by
  let setting : Setting σ (List (PipeSlot κ)) :=
    { host, scope, pipes := PipeSlot.host registry (.part 1 binding.place) }
  have along : setting.Along SameSlots :=
    { host := fun _ => ⟨fun _ _ _ => rfl, fun _ _ _ => rfl, fun _ _ _ => rfl, fun _ _ _ _ => rfl⟩
      apply := fun slot name value args => fun (state, slots) =>
        PipeSlot.host_length registry _ slot name value args state slots }
  have slots := Evaluator.evaluate_along along (.part 0 binding.place) binding.evaluator
    binding.evaluations (state, binding.slots)
  exact binding.blank_with _ _ slots

theorem blank_judge (purpose : Purpose) (result : Except EvalError Outcome) (binding : Binding κ) :
    (binding.judge purpose result).2.blank = binding.blank := by
  obtain ⟨previous, left⟩ := (binding.judged purpose result).left
  rw [left]
  rfl

theorem blank_check (host : Host σ) (registry : Registry σ κ) (scope : Scope) (purpose : Purpose)
    (binding : Binding κ) (state : σ) :
    (binding.check host registry scope purpose state).1.2.blank = binding.blank :=
  (blank_judge purpose _ _).trans (blank_evaluate host registry scope binding state)

theorem blank_ofRecord (strategy : Strategy) (place : Place) (record : BindingRecord) :
    (ofRecord strategy place record : Binding κ).blank = ofRecord strategy place record := by
  simp only [ofRecord, blank, List.length_replicate]

/-- An expression that has been made of a record is evaluated by an evaluator of its own, and has all of
its slots. -/
theorem made_of_blank {binding : Binding κ} {strategy : Strategy} {place : Place} {record : BindingRecord}
    (made : binding.blank = .ofRecord strategy place record) :
    binding.evaluator = .make strategy record.source (.part 0 binding.place) ∧
      binding.slots.length = record.source.slots := by
  have home : binding.place = place := congrArg Binding.place made
  have evaluator : binding.evaluator = .make strategy record.source (.part 0 place) :=
    congrArg Binding.evaluator made
  have slots := congrArg (fun binding : Binding κ => binding.slots.length) made
  simp only [blank, ofRecord, List.length_replicate] at slots
  exact ⟨home.symm ▸ evaluator, slots⟩

end Binding

namespace Detector

variable {host : Host σ} {first second : Detector σ κ}

theorem blank_instantiate (proto : Proto σ κ) (place : Place) (dispatcher : Dispatcher σ)
    (records : List BindingRecord) (localNames : List String) :
    (proto.instantiate place dispatcher records localNames).blank =
      proto.instantiate place dispatcher records localNames := by
  simp only [Proto.instantiate, blank, List.map_map]
  congr 2
  funext entry
  exact Binding.blank_ofRecord proto.strategy _ entry.1

/-- Each expression of a detector that was made from records was made of one of them. -/
theorem exists_record {proto : Proto σ κ} {place : Place} {dispatcher : Dispatcher σ}
    {records : List BindingRecord} {localNames : List String}
    (made : first.blank = proto.instantiate place dispatcher records localNames) {binding : Binding κ}
    (member : binding ∈ first.bindings) :
    ∃ record ∈ records, ∃ index,
      binding.blank = .ofRecord proto.strategy (.part index place) record := by
  have drawn : binding.blank ∈ first.blank.bindings := List.mem_map_of_mem member
  rw [made] at drawn
  obtain ⟨⟨record, index⟩, listed, blank⟩ := List.mem_map.mp drawn
  exact ⟨record, List.fst_mem_of_mem_zipIdx listed, index, blank.symm⟩

theorem blank_clearAll (registry : Registry σ κ) (bindings : List (Binding κ)) (state : σ) :
    (clearAll registry bindings state).1.map Binding.blank = bindings.map Binding.blank := by
  induction bindings generalizing state with
  | nil => rfl
  | cons binding bindings ih =>
    have cleared := binding.blank_clear registry state
    simp only [clearAll, Bind.bind, StateT.bind]
    generalize binding.clear registry state = ended at cleared ⊢
    obtain ⟨binding', between⟩ := ended
    exact congrArg₂ List.cons cleared (ih between)

theorem blank_check (host : Host σ) (purpose : Purpose) (detector : Detector σ κ) (state : σ) :
    (detector.check host purpose state).1.2.blank = detector.blank := by
  cases given : detector.scope with
  | none => rw [check_of_none host given]
  | some scope =>
    rw [check_of_scope host given]
    obtain ⟨-, fares⟩ := @check_fares _ _ host detector scope purpose state (fun _ => True)
      (fun _ _ _ _ _ => trivial) (fun _ _ _ _ => trivial) trivial
    have bindings : (detector.checkFrom host scope purpose {} 0 detector.bindings state).1.2.map
        Binding.blank = detector.bindings.map Binding.blank := by
      rw [← List.forall₂_eq_eq_eq, List.forall₂_map_left_iff, List.forall₂_map_right_iff]
      refine fares.flip.imp fun after binding fared => ?_
      cases fared with
      | left failed => rfl
      | @checked _ state later finding holds ran fine =>
        have kept := binding.blank_check host detector.registry scope purpose state
        rw [ran] at kept
        exact kept
    simp only [blank, bindings]

theorem Quiet.blank (quiet : Quiet first second) : second.blank = first.blank := by
  cases quiet with
  | setMode mode => rfl
  | hydrate context locals => rfl
  | dehydrate state =>
    have bindings := blank_clearAll first.registry first.bindings state
    exact congrArg (fun bindings => { first with bindings, scope := none, mode := .checkAlways })
      bindings

/-- Nothing that happens to a detector touches what it was made of. -/
theorem Next.blank (next : Next host first second) : second.blank = first.blank := by
  cases next with
  | quiet quiet => exact quiet.blank
  | check purpose state => exact blank_check host purpose first state

theorem Lineage.blank (lineage : Lineage host first second) : second.blank = first.blank := by
  induction lineage with
  | refl => rfl
  | tail _ next ih => exact next.blank.trans ih

end Detector

/-- Worlds with one outline, where every handle finds the same detector, and what has become of it. -/
structure Tree.Kept (Became : Detector σ κ → Detector σ κ → Prop) (first second : σ × Tree σ κ) :
    Prop where
  outline : second.2.outline = first.2.outline
  detectors : ∀ id, Option.Rel Became (first.2.payloadOf id) (second.2.payloadOf id)

namespace Tree

variable {host : Host σ} {Became : Detector σ κ → Detector σ κ → Prop}

instance [Std.Refl Became] : Std.Refl (Kept Became) where
  refl world := ⟨rfl, fun id => by
    cases world.2.payloadOf id
    · exact .none
    · exact .some (Std.Refl.refl _)⟩

instance [Trans Became Became Became] : Trans (Kept Became) (Kept Became) (Kept Became) where
  trans {first second third} before behind := by
    refine ⟨behind.outline.trans before.outline, fun id => ?_⟩
    have one := before.detectors id
    have two := behind.detectors id
    generalize first.2.payloadOf id = start at one ⊢
    generalize second.2.payloadOf id = between at one two
    generalize third.2.payloadOf id = ended at two ⊢
    cases one with
    | none =>
      cases two
      exact .none
    | some became =>
      cases two with
      | some further => exact .some (Trans.trans became further)

section Steps

variable [Std.Refl Became]

theorem Kept.of_same {first second : σ × Tree σ κ} (outline : second.2.outline = first.2.outline)
    (same : Forest.SamePayloads first.2 second.2) : Kept Became first second where
  outline
  detectors id := by
    rw [same.payloadOf]
    exact (Std.Refl.refl first : Kept Became first first).detectors id

/-- An operation on a detector keeps all others. -/
theorem onDetector_kept (id : NodeId) {action : Detector σ κ → StateM σ (α × Detector σ κ)}
    (acts : ∀ detector state, Became detector (action detector state).1.2) :
    Along (Kept Became) (TreeM.onDetector id action) := by
  refine onDetector_along id fun state tree node found => ?_
  refine ⟨Forest.outline_modify _ _ _, fun other => ?_⟩
  simp only [Forest.payloadOf, Forest.node?_modify]
  by_cases same : other = id
  · rw [if_pos same, same, found]
    exact .some (acts node.payload state)
  · rw [if_neg same]
    exact (Std.Refl.refl (state, tree) : Kept Became (state, tree) (state, tree)).detectors other

end Steps

theorem setMode_kept (id : NodeId) (mode : Mode) :
    Along (Kept (ReflTransGen (Detector.Quiet (σ := σ) (κ := κ)))) (setMode id mode) :=
  onDetector_kept id fun detector _ => .single (.setMode detector mode)

theorem hydrate_kept (id : NodeId) (context : Value) (locals : Locals) :
    Along (Kept (ReflTransGen (Detector.Quiet (σ := σ) (κ := κ)))) (hydrate id context locals) :=
  onDetector_kept id fun detector _ => .single (.hydrate detector context locals)

theorem dehydrate_kept (id : NodeId) :
    Along (Kept (ReflTransGen (Detector.Quiet (σ := σ) (κ := κ)))) (dehydrate id) :=
  onDetector_kept id fun detector state => .single (.dehydrate detector state)

theorem pass_kept (host : Host σ) (purpose : Purpose) (id : NodeId) :
    Along (Kept (Detector.Lineage (κ := κ) host)) (pass host purpose id) := by
  have check (id : NodeId) :
      Along (Kept (Detector.Lineage (κ := κ) host)) (checkNode host purpose id) :=
    checkNode_along (onDetector_kept id fun detector state => .single (.check detector purpose state))
  have setMode (id : NodeId) (mode : Mode) :
      Along (Kept (Detector.Lineage (κ := κ) host)) (setMode id mode) :=
    onDetector_kept id fun detector _ => .single (.quiet (.setMode detector mode))
  exact fun world => visit_along check (fun _ => mark_along fun _ => setMode _ _) _ id world

end Tree
end ChangeWatch
