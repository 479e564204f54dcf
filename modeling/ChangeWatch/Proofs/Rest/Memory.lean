import ChangeWatch.Proofs.Effects
import ChangeWatch.Proofs.Rest.Detectors

/-!
What watched expressions remember in their pipe slots. Whatever is done with a tree, a built-in pipe
makes its containers in its own slot. So nothing but the values in the slots decides whether an
expression is ready to be checked from now on: they have to be known by now, or to come from the parts of
the expression that feed the slot.
-/
namespace ChangeWatch

open Forest (Every)

/-- A built-in pipe makes its containers in a slot with some place. -/
def LivePipe.Homed (home : Place) : LivePipe κ → Prop
  | .builtIn _ place _ => ∃ made, place = .part made home
  | .hosted _ => True

namespace PipeSlot

def Homed (home : Place) (slot : PipeSlot κ) : Prop :=
  ∀ live, slot.pipe = some live → live.Homed home

/-- The pipes of an expression make their containers in their slots. -/
def AllHomed (place : Place) (slots : List (PipeSlot κ)) : Prop :=
  ∀ (index : Nat) (slot : PipeSlot κ), slots[index]? = some slot → slot.Homed (place.slot index)

variable {registry : Registry σ κ} {home place : Place} {slot : PipeSlot κ} {live : LivePipe κ}

/-- What a slot keeps is what it has had. -/
theorem keep_pipe (value : Value) (state : σ)
    (kept : (slot.keep registry value state).1 = some live) : slot.pipe = some live := by
  obtain ⟨pipe, last, made⟩ := slot
  cases pipe with
  | none => cases kept
  | some pipe =>
    simp only [keep, Bind.bind, StateT.bind] at kept
    generalize registry.supports pipe value state = asked at kept
    obtain ⟨supported, between⟩ := asked
    cases supported with
    | true => exact kept
    | false => cases kept

theorem feed_homed (homed : live.Homed home) (value : Value) (args : List Value) (slot : PipeSlot κ)
    (state : σ) : (slot.feed registry live value args state).1.2.Homed home := by
  have fed : (registry.transform live value args state).1.2.Homed home := by
    cases live with
    | builtIn pipe place transforms => exact homed
    | hosted handle => trivial
  simp only [feed, Bind.bind, StateT.bind]
  generalize registry.transform live value args state = transformed at fed ⊢
  obtain ⟨⟨result, later⟩, after⟩ := transformed
  rcases result with cause | made | _ <;>
  · intro other same
    cases same
    exact fed

theorem create_homed (maker : PipeMaker σ κ) (made : Nat) (state : σ) :
    (maker.create (.part made home) state).1.Homed home := by
  cases maker with
  | builtIn kind => exact ⟨made, rfl⟩
  | hosted supports create => trivial

theorem select_homed (name : String) (value : Value) (made : Nat) (state : σ)
    (chosen : (registry.select name value (.part made home) state).1 = .ok live) :
    live.Homed home := by
  simp only [Registry.select] at chosen
  cases known : Entries.get? registry.makers name with
  | none =>
    rw [known] at chosen
    cases chosen
  | some makers =>
    simp only [known, Bind.bind, StateT.bind] at chosen
    generalize PipeMaker.firstFor value makers state = answered at chosen
    obtain ⟨maker, between⟩ := answered
    cases maker with
    | none => cases chosen
    | some maker =>
      cases chosen
      exact create_homed maker made between

theorem apply_homed (homed : slot.Homed home) (name : String) (value : Value) (args : List Value)
    (state : σ) : (slot.apply registry home name value args state).1.2.Homed home := by
  have kept := @keep_pipe _ _ registry slot
  simp only [apply, Bind.bind, StateT.bind]
  generalize keeping : slot.keep registry value state = stayed
  obtain ⟨pipe, between⟩ := stayed
  cases pipe with
  | some live =>
    have held := kept value state (congrArg Prod.fst keeping)
    exact feed_homed (homed live held) value args slot between
  | none =>
    have selected := @select_homed _ _ registry home
    simp only [StateT.bind]
    generalize selecting : registry.select name value (.part slot.made home) between = chosen
    obtain ⟨result, later⟩ := chosen
    cases result with
    | error cause => exact fun _ impossible => by cases impossible
    | ok live =>
      have created := selected name value slot.made between (congrArg Prod.fst selecting)
      exact feed_homed created value args { slot with made := slot.made + 1 } later

theorem host_homed {slots : List (PipeSlot κ)} (homed : AllHomed place slots) (index : Nat)
    (name : String) (value : Value) (args : List Value) (state : σ) :
    AllHomed place ((host registry (.part 1 place)).apply index name value args (state, slots)).2.2 := by
  simp only [host]
  cases found : slots[index]? with
  | none => exact homed
  | some slot =>
    have applied := @apply_homed _ _ registry _ slot (homed index slot found) name value args state
    change (slot.apply registry (.part index (.part 1 place)) _ _ _ _).1.2.Homed _ at applied
    have others {after : PipeSlot κ} (fine : after.Homed (place.slot index)) :
        AllHomed place (slots.set index after) := by
      intro other held looked
      rw [List.getElem?_set] at looked
      split at looked
      · rename_i same
        subst same
        split at looked <;> cases looked
        exact fine
      · exact homed other held looked
    dsimp only
    generalize slot.apply registry (.part index (.part 1 place)) name value args state = ran
      at applied ⊢
    obtain ⟨⟨result, after⟩, later⟩ := ran
    cases result <;> exact others applied

theorem allHomed_of_empty {slots : List (PipeSlot κ)} (empty : ∀ slot ∈ slots, slot.pipe = none) :
    AllHomed place slots := by
  intro index slot found live held
  cases (empty slot (List.mem_of_getElem? found)).symm.trans held

end PipeSlot

namespace Binding

/-- The pipes of the expression make their containers in their slots. -/
def Homed (binding : Binding κ) : Prop := PipeSlot.AllHomed binding.place binding.slots

/-- States whose slots all make their containers at home if they have done so before. -/
private def StayHomed (place : Place) (first second : σ × List (PipeSlot κ)) : Prop :=
  PipeSlot.AllHomed place first.2 → PipeSlot.AllHomed place second.2

private instance (place : Place) : Std.Refl (StayHomed (σ := σ) (κ := κ) place) where
  refl _ homed := homed

private instance (place : Place) :
    Trans (StayHomed (σ := σ) (κ := κ) place) (StayHomed place) (StayHomed place) where
  trans first second homed := second (first homed)

variable {binding : Binding κ}

theorem Homed.evaluate (homed : binding.Homed) (host : Host σ) (registry : Registry σ κ)
    (scope : Scope) (state : σ) : (binding.evaluate host registry scope state).1.2.Homed := by
  let setting : Setting σ (List (PipeSlot κ)) :=
    { host, scope, pipes := PipeSlot.host registry (.part 1 binding.place) }
  have along : setting.Along (StayHomed binding.place) :=
    { host := fun _ => ⟨fun _ _ _ homed => homed, fun _ _ _ homed => homed, fun _ _ _ homed => homed,
        fun _ _ _ _ homed => homed⟩
      apply := fun slot name value args => fun (state, slots) homed =>
        PipeSlot.host_homed homed slot name value args state }
  exact Evaluator.evaluate_along along (.part 0 binding.place) binding.evaluator binding.evaluations
    (state, binding.slots) homed

theorem Homed.check (homed : binding.Homed) (host : Host σ) (registry : Registry σ κ)
    (scope : Scope) (purpose : Purpose) (state : σ) :
    (binding.check host registry scope purpose state).1.2.Homed := by
  rcases evaluated : binding.evaluate host registry scope state with ⟨⟨result, after⟩, later⟩
  have kept := homed.evaluate host registry scope state
  rw [evaluated] at kept
  rw [check_eq evaluated]
  obtain ⟨previous, left⟩ := (after.judged purpose result).left
  rw [left]
  exact kept

end Binding

namespace Detector

/-- The pipes of all expressions make their containers in their slots. -/
def Homed (detector : Detector σ κ) : Prop := ∀ binding ∈ detector.bindings, binding.Homed

variable {host : Host σ} {detector later : Detector σ κ}

theorem Renewed.homed (renewed : detector.Renewed) (bare : detector.scope = none) :
    detector.Homed := by
  intro binding member
  obtain ⟨-, empty⟩ := renewed.forgetful bare binding member
  exact PipeSlot.allHomed_of_empty fun slot among => (empty slot among).1

theorem Homed.check (homed : detector.Homed) (host : Host σ) (purpose : Purpose) (state : σ) :
    (detector.check host purpose state).1.2.Homed := by
  cases given : detector.scope with
  | none => rwa [check_of_none host given]
  | some scope =>
    rw [check_of_scope host given]
    obtain ⟨-, fares⟩ := @check_fares _ _ host detector scope purpose state (fun _ => True)
      (fun _ _ _ _ _ => trivial) (fun _ _ _ _ => trivial) trivial
    intro after member
    obtain ⟨binding, listed, fare⟩ := Fares.exists_of_mem fares member
    cases fare with
    | left failed => exact homed _ listed
    | @checked _ state later finding holds ran fine =>
      have kept := (homed binding listed).check host detector.registry scope purpose state
      rwa [ran] at kept

theorem Next.homed (next : Next host detector later) (homed : detector.Homed) : later.Homed := by
  cases next with
  | quiet quiet =>
    cases quiet with
    | setMode mode => exact homed
    | hydrate context locals => exact homed
    | dehydrate state => exact (renewed_dehydrate detector state).homed rfl
  | check purpose state => exact homed.check host purpose state

theorem Lineage.homed (lineage : Lineage host detector later) (homed : detector.Homed) :
    later.Homed := by
  induction lineage with
  | refl => exact homed
  | tail _ next ih => exact next.homed ih

end Detector

/-- Whatever has been done with a tree, built-in pipes make their containers in their own slots. -/
theorem Tree.after_homed (host : Host σ) (state : σ) (operations : List (Operation σ κ)) :
    Every Detector.Homed (after host operations (state, {})).2 := by
  refine after_every host state (fun operation _ detector made => ?_)
    fun detector later lineage => lineage.homed
  obtain ⟨proto, place, dispatcher, records, localNames, rfl⟩ := Operation.exists_of_made made
  exact (Detector.renewed_instantiate proto place dispatcher records localNames).homed rfl

/-- The values in a slot are known by now, or they were made at certain places. -/
structure PipeSlot.Remembers [Epoch] (P : Place → Prop) (slot : PipeSlot Empty) : Prop where
  pipe : ∀ pipe place transforms, slot.pipe = some (.builtIn pipe place transforms) → pipe.Sound P
  last : slot.last.Sound P

namespace Binding

variable {binding : Binding Empty} {outlook : Outlook σ ν}

/-- What the slots of an expression remember holds certain objects and functions only, and no container
that the expression is yet to make, unless it is a slot's own or one of what feeds the slot. -/
def Remembers (known : ObjectRef → Prop) (calls : FunctionRef → Prop) (binding : Binding Empty) :
    Prop :=
  ∀ detector index, binding.place = .ofBinding detector index →
    let present := binding.epoch detector index known calls
    ∃ owner, binding.evaluator.source.expr.Placed owner [] ∧
      ∀ (slot : Nat) (held : PipeSlot Empty), binding.slots[slot]? = some held →
        @PipeSlot.Remembers present (Place.Grown binding.place owner (owner slot)) held

/-- Empty slots remember nothing. -/
theorem remembers_of_forgetful (known : ObjectRef → Prop) (calls : FunctionRef → Prop)
    (placed : ∃ owner, binding.evaluator.source.expr.Placed owner [])
    (forgetful : ∀ slot ∈ binding.slots, slot.pipe = none ∧ slot.last = .null) :
    binding.Remembers known calls := by
  intro detector index place
  obtain ⟨owner, placed⟩ := placed
  refine ⟨owner, placed, fun slot held found => ?_⟩
  obtain ⟨empty, last⟩ := forgetful held (List.mem_of_getElem? found)
  let present : Epoch := binding.epoch detector index known calls
  refine ⟨fun pipe place transforms lives => ?_, ?_⟩
  · cases empty.symm.trans lives
  · rw [last]
    trivial

/-- At present, an expression is as ready as its slots. -/
theorem Remembers.ready {strategy : Strategy} {source : Source} {detector index : Nat}
    (remembers : binding.Remembers outlook.known outlook.calls) (homed : binding.Homed)
    (place : binding.place = .ofBinding detector index)
    (evaluator : binding.evaluator = .make strategy source (.part 0 binding.place)) :
    binding.Ready outlook := by
  obtain ⟨owner, placed, holds⟩ := remembers detector index place
  rw [evaluator, Evaluator.source_make] at placed
  rw [Homed, place] at homed
  rw [place] at holds evaluator
  let present : Epoch := binding.epoch detector index outlook.known outlook.calls
  let watch : Watch := { detector, index, strategy, source, owner, placed }
  have keeps : watch.Keeps binding.slots := by
    intro slot held found
    obtain ⟨remembered, last⟩ := holds slot held found
    refine ⟨fun live lives => ?_, last,
      fun made later transforms inner => .slot found (.pipe later transforms) inner⟩
    cases live with
    | hosted handle => exact nomatch handle
    | builtIn pipe home transforms =>
      obtain ⟨made, rfl⟩ := homed slot held found _ lives
      exact ⟨remembered _ _ _ lives, made, rfl,
        fun later behind inner => .slot found (.transform lives behind) inner⟩
  exact ⟨present, watch, rfl, rfl, keeps.holds place evaluator⟩

theorem Ready.remembers (ready : binding.Ready outlook) :
    binding.Remembers outlook.known outlook.calls := by
  obtain ⟨before, watch, objects, functions, holds⟩ := ready
  intro detector index place
  have home : binding.place = watch.place := holds.place
  have source : binding.evaluator.source = watch.source := holds.source
  obtain ⟨rfl, rfl⟩ : watch.index = index ∧ watch.detector = detector := by
    have same : watch.place = .ofBinding detector index := home.symm.trans place
    simpa only [Watch.place, Place.ofBinding, Place.part.injEq, Place.detector.injEq] using same
  obtain ⟨strategy, now⟩ := @Watch.Holds.now _ _ before holds outlook.known outlook.calls
    (fun _ held => objects ▸ held) fun _ called => functions ▸ called
  let present : Epoch := binding.epoch watch.detector watch.index outlook.known outlook.calls
  refine ⟨watch.owner, source ▸ watch.placed, fun slot held found => ?_⟩
  have sound := @Watch.Holds.keeps present _ _ now slot held found
  rw [home]
  exact ⟨fun pipe place transforms lives => (sound.pipe _ lives).1, sound.last⟩

end Binding

/-- What the slots of all expressions remember holds certain objects and functions only. -/
def Detector.Remembers (known : ObjectRef → Prop) (calls : FunctionRef → Prop)
    (detector : Detector σ Empty) : Prop :=
  ∀ binding ∈ detector.bindings, binding.Remembers known calls

end ChangeWatch
