import ChangeWatch.Detector.Slot
import ChangeWatch.Proofs.Stateful
import ChangeWatch.Proofs.Timeless.Pipes

/-!
Pipe slots without time. Of a slot with a built-in pipe only the pipe and the last value matter, and
both without time, as long as every container that the slot makes was yet to be made. A slot that is
applied twice to the same value has nothing new the second time and is left as it is.
-/
namespace ChangeWatch

open Place (Timed Covered Grown)
open Stateful (Agree Refines)

variable [Epoch]

noncomputable def Applied.timeless : Applied → Applied
  | .changed made => .changed made.timeless
  | .unchanged made => .unchanged made.timeless

/-- An application of a pipe and its image. -/
def Applied.Image (P : Place → Prop) (applied image : Applied) : Prop :=
  image = applied.timeless ∧ applied.value.Sound P

/-- A pipe slot without time. -/
structure Still where
  pipe : Option BuiltInPipe := none
  last : Value := .null

namespace Still

/-- The kinds of pipes that a name stands for. -/
def kinds? (name : String) : Option (List BuiltIn) :=
  if name = "iterableDiff" then some [.listDiff, .placeholder]
  else if name = "keyValDiff" then some [.mapDiff, .placeholder]
  else none

def choose (name : String) (value : Value) : Except PipeError BuiltIn :=
  match kinds? name with
  | none => .error (.notFound name)
  | some kinds =>
    match kinds.find? (·.supports value) with
    | none => .error (.unsupported name value.kind)
    | some kind => .ok kind

def feed (home : Place) (pipe : BuiltInPipe) (value : Value) (still : Still) :
    Except PipeError Applied × Still :=
  match pipe.transform home value with
  | (.error cause, pipe) => (.error cause, { still with pipe := some pipe })
  | (.ok (.value made), pipe) => (.ok (.changed made), { pipe := some pipe, last := made })
  | (.ok .noChange, pipe) => (.ok (.unchanged still.last), { still with pipe := some pipe })

def apply (home : Place) (name : String) (value : Value) (still : Still) :
    Except PipeError Applied × Still :=
  match still.pipe.filter fun pipe => pipe.kind.supports value with
  | some pipe => still.feed home pipe value
  | none =>
    match choose name value with
    | .error cause => (.error cause, { still with pipe := none })
    | .ok kind => still.feed home (.create kind) value

/-- The pipes of an expression whose slots have the given place. Every pipe makes its containers as the
first one that was yet to be made. -/
def host (place : Place) : PipeHost Unit (List Still) where
  apply index name value _ := fun (state, stills) =>
    match stills[index]? with
    | none => (.error (.pipe name s!"no pipe slot {index}"), (state, stills))
    | some still =>
      match still.apply (.part 0 (.part (Epoch.made index) (.part index place))) name value with
      | (.ok applied, still) => (.ok applied, (state, stills.set index still))
      | (.error cause, still) =>
        (.error (.pipe name cause.message), (state, stills.set index still))

variable {P : Place → Prop} {home : Place} {name : String} {value : Value} {still after : Still}
  {applied : Applied}

omit [Epoch] in
theorem supports_of_choose {kind : BuiltIn} (chosen : choose name value = .ok kind) :
    kind.supports value = true := by
  unfold choose at chosen
  split at chosen
  · cases chosen
  · split at chosen
    · cases chosen
    · rename_i found
      cases chosen
      have supported := List.find?_some found
      exact supported

/-- Applying to the value that was just fed. -/
theorem apply_of_fed (sound : value.Sound P) {pipe : BuiltInPipe}
    (supported : pipe.kind.supports value = true)
    (ran : still.feed home pipe value = (.ok applied, after)) :
    after.apply home name value = (.ok (.unchanged applied.value), after) := by
  have kept := BuiltInPipe.transform_kind pipe home value
  unfold feed at ran
  split at ran <;> rename_i fed transformed <;> cases ran <;>
    rw [transformed] at kept <;>
    have again := BuiltInPipe.transform_again home sound transformed
  · simp only [apply, kept, supported, Option.filter_some, if_true, feed, again, Applied.value]
  · simp only [apply, kept, supported, Option.filter_some, if_true, feed, again, Applied.value]

theorem apply_again (sound : value.Sound P)
    (ran : still.apply home name value = (.ok applied, after)) :
    after.apply home name value = (.ok (.unchanged applied.value), after) := by
  unfold apply at ran
  split at ran
  · rename_i pipe kept
    exact apply_of_fed sound (Option.filter_eq_some_iff.mp kept).2 ran
  · split at ran
    · cases ran
    · rename_i kind chosen
      have supported := supports_of_choose chosen
      refine apply_of_fed sound ?_ ran
      cases kind <;> exact supported

omit [Epoch] in
theorem feed_ok {pipe : BuiltInPipe} (supported : pipe.kind.supports value = true) :
    ∃ applied, (still.feed home pipe value).1 = .ok applied := by
  obtain ⟨result, transformed⟩ := BuiltInPipe.transform_ok supported home
  unfold feed
  split <;> rename_i ran <;> rw [ran] at transformed
  · cases transformed
  · exact ⟨_, rfl⟩
  · exact ⟨_, rfl⟩

omit [Epoch] in
/-- A slot that has failed fails again, and stays as it is. -/
theorem apply_again_failed {cause : PipeError}
    (ran : still.apply home name value = (.error cause, after)) :
    after.apply home name value = (.error cause, after) := by
  unfold apply at ran
  split at ran
  · rename_i pipe kept
    obtain ⟨applied, fed⟩ := feed_ok (Option.filter_eq_some_iff.mp kept).2
    rw [ran] at fed
    cases fed
  · split at ran
    · rename_i chosen
      cases ran
      simp only [apply, Option.filter_none, chosen]
    · rename_i kind chosen
      obtain ⟨applied, fed⟩ := @feed_ok home value still (.create kind) <| by
        have supported := supports_of_choose chosen
        cases kind <;> exact supported
      rw [ran] at fed
      cases fed

/-- What a slot holds was made at certain places. -/
structure Sound (P : Place → Prop) (still : Still) : Prop where
  pipe : ∀ pipe, still.pipe = some pipe → pipe.Sound P
  last : still.last.Sound P

theorem Sound.of_pipe {pipe : BuiltInPipe} (remembered : pipe.Sound P) {last : Value}
    (kept : last.Sound P) : Sound P { pipe := some pipe, last } where
  pipe other same := by
    cases same
    exact remembered
  last := kept

theorem Sound.without {last : Value} (kept : last.Sound P) : Sound P { pipe := none, last } where
  pipe _ impossible := nomatch impossible
  last := kept

theorem feed_sound (covered : Covered P home) {pipe : BuiltInPipe}
    (remembered : pipe.Sound P) (kept : still.last.Sound P) (sound : value.Sound P) :
    (still.feed home pipe value).2.Sound P ∧
      ∀ applied, (still.feed home pipe value).1 = .ok applied → applied.value.Sound P := by
  obtain ⟨fed, made⟩ := BuiltInPipe.transform_sound covered remembered sound
  unfold feed
  split <;> rename_i after transformed <;> rw [transformed] at fed made
  · refine ⟨.of_pipe fed kept, ?_⟩
    intro applied same
    cases same
  · have new := made _ rfl
    refine ⟨.of_pipe fed new, ?_⟩
    intro applied same
    cases same
    exact new
  · refine ⟨.of_pipe fed kept, ?_⟩
    intro applied same
    cases same
    exact kept

theorem apply_sound (covered : Covered P home) (holds : still.Sound P)
    (sound : value.Sound P) :
    (still.apply home name value).2.Sound P ∧
      ∀ applied, (still.apply home name value).1 = .ok applied → applied.value.Sound P := by
  unfold apply
  split
  · rename_i pipe kept
    have held := (Option.filter_eq_some_iff.mp kept).1
    exact feed_sound covered (holds.pipe pipe held) holds.last sound
  · split
    · refine ⟨.without holds.last, ?_⟩
      intro applied same
      cases same
    · exact feed_sound covered (BuiltInPipe.create_sound P _) holds.last sound

end Still

/-- The pipe without time and without the place where it makes its containers. -/
noncomputable def LivePipe.image : LivePipe Empty → BuiltInPipe
  | .builtIn pipe _ _ => pipe.timeless
  | .hosted handle => nomatch handle

/-- A transform of a pipe of a slot whose containers are all yet to be made. -/
def Place.Fresh (home : Place) (made transforms : Nat) : Prop :=
  ∀ inner, Epoch.Yet ((Place.part transforms (.part made home)).within inner)

/-- What the pipe holds is given or was made at certain places, and its own place is in a slot. -/
def LivePipe.Sound (P : Place → Prop) (home : Place) : LivePipe Empty → Prop
  | .builtIn pipe place transforms => pipe.Sound P ∧
    ∃ made, place = .part made home ∧ ∀ later, transforms ≤ later → home.Fresh made later
  | .hosted handle => nomatch handle

namespace PipeSlot

noncomputable def image (slot : PipeSlot Empty) : Still where
  pipe := slot.pipe.map LivePipe.image
  last := slot.last.timeless

structure Sound (P : Place → Prop) (home : Place) (slot : PipeSlot Empty) : Prop where
  pipe : ∀ pipe, slot.pipe = some pipe → pipe.Sound P home
  last : slot.last.Sound P
  fresh : ∀ later, slot.made ≤ later → ∀ transforms, home.Fresh later transforms

theorem Sound.of_pipe {P : Place → Prop} {home : Place} {live : LivePipe Empty}
    (remembered : live.Sound P home) {last : Value} (kept : last.Sound P) {made : Nat}
    (fresh : ∀ later, made ≤ later → ∀ transforms, home.Fresh later transforms) :
    Sound P home { pipe := some live, last, made } where
  pipe other same := by
    cases same
    exact remembered
  last := kept
  fresh := fresh

/-- The image of a slot is tidy: its maps have no name twice. -/
theorem Sound.image {P : Place → Prop} {home : Place} {slot : PipeSlot Empty}
    (sound : slot.Sound P home) : slot.image.Sound fun _ => True where
  pipe fed same := by
    obtain ⟨live, held, rfl⟩ := Option.map_eq_some_iff.mp same
    have remembered := sound.pipe live held
    cases live with
    | hosted handle => exact nomatch handle
    | builtIn pipe place transforms => exact remembered.1.timeless
  last := sound.last.timeless

/-- Containers made by the pipes of a slot have their places, and their images one place. -/
structure Located (P : Place → Prop) (home still : Place) : Prop where
  covered : ∀ made transforms, Covered P (.part transforms (.part made home))
  timed : ∀ made transforms, home.Fresh made transforms →
    Timed (.part transforms (.part made home)) still

/-- An application of a slot, with its image. -/
structure Follows (P : Place → Prop) (home : Place)
    (ran : Except PipeError Applied × PipeSlot Empty) (model : Except PipeError Applied × Still) :
    Prop where
  results : Agree (Applied.Image P) ran.1 model.1
  image : model.2 = ran.2.image
  sound : ran.2.Sound P home

variable {P : Place → Prop} {home still : Place} {slot : PipeSlot Empty} {value : Value}
  (hosted : HostedPipes σ Empty) (state : σ)

theorem supports_timeless (kind : BuiltIn) (value : Value) :
    kind.supports value.timeless = kind.supports value := by
  cases kind <;> cases value <;> rfl

theorem keep_eq (value : Value) (slot : PipeSlot Empty) :
    slot.keep (.default hosted) value state =
      (slot.pipe.filter fun live => live.image.kind.supports value, state) := by
  obtain ⟨pipe, last, made⟩ := slot
  cases pipe with
  | none => rfl
  | some live =>
    cases live with
    | hosted handle => exact nomatch handle
    | builtIn pipe place transforms =>
      simp only [Option.filter_some, LivePipe.image, BuiltInPipe.kind_timeless]
      cases supported : pipe.kind.supports value <;>
        simp [keep, Registry.supports, supported, Registry.destroy] <;> rfl

omit [Epoch] in
theorem get?_makers (hosted : HostedPipes σ κ) (name : String) :
    Entries.get? (Registry.default hosted).makers name =
      (Still.kinds? name).map (List.map PipeMaker.builtIn) := by
  have makers : (Registry.default hosted).makers =
      [("iterableDiff", [.builtIn .listDiff, .builtIn .placeholder]),
        ("keyValDiff", [.builtIn .mapDiff, .builtIn .placeholder])] := rfl
  rw [makers]
  by_cases list : name = "iterableDiff"
  · subst list
    rfl
  · by_cases map : name = "keyValDiff"
    · subst map
      rfl
    · simp [Still.kinds?, Entries.get?, list, map, Ne.symm list, Ne.symm map]

omit [Epoch] in
theorem firstFor_eq (value : Value) (kinds : List BuiltIn) :
    PipeMaker.firstFor value (kinds.map (@PipeMaker.builtIn σ κ)) state =
      ((kinds.find? (·.supports value)).map PipeMaker.builtIn, state) := by
  induction kinds with
  | nil => rfl
  | cons kind kinds ih =>
    simp only [List.map_cons, PipeMaker.firstFor, PipeMaker.supports, pure_bind, List.find?_cons]
    cases kind.supports value with
    | true => rfl
    | false => exact ih

omit [Epoch] in
theorem select_eq (hosted : HostedPipes σ κ) (name : String) (value : Value) (place : Place) :
    (Registry.default hosted).select name value place state =
      ((Still.choose name value).map fun kind => .builtIn (.create kind) place 0, state) := by
  unfold Registry.select Still.choose
  rw [get?_makers]
  cases Still.kinds? name with
  | none => rfl
  | some kinds =>
    have first := firstFor_eq (κ := κ) state value kinds
    simp only [Option.map_some, Bind.bind, StateT.bind, first]
    cases kinds.find? (·.supports value) <;> rfl

theorem choose_timeless (name : String) (value : Value) :
    Still.choose name value.timeless = Still.choose name value := by
  simp only [Still.choose, supports_timeless, Value.kind_timeless]

theorem feed_follows (located : Located P home still) (slot : PipeSlot Empty)
    {live : LivePipe Empty} (remembered : live.Sound P home) (kept : slot.last.Sound P)
    (sound : value.Sound P)
    (fresh : ∀ later, slot.made ≤ later → ∀ transforms, home.Fresh later transforms)
    (args : List Value) :
    ∃ ran, slot.feed (.default hosted) live value args state = (ran, state) ∧
      Follows P home ran (slot.image.feed still live.image value.timeless) := by
  cases live with
  | hosted handle => exact nomatch handle
  | builtIn pipe place transforms =>
    obtain ⟨before, made, rfl, yet⟩ := remembered
    have covered := located.covered made transforms
    have timed := located.timed made transforms (yet transforms (Nat.le_refl transforms))
    have parts := BuiltInPipe.transform_sound covered before sound
    have images := BuiltInPipe.transform_timeless timed pipe value
    unfold Still.feed
    simp only [LivePipe.image, images, feed, Registry.transform, pure_bind]
    generalize pipe.transform (.part transforms (.part made home)) value = transformed at parts ⊢
    obtain ⟨result, fed⟩ := transformed
    have stays : LivePipe.Sound P home (.builtIn fed (.part made home) (transforms + 1)) :=
      ⟨parts.1, made, rfl, fun later behind => yet later (Nat.le_of_succ_le behind)⟩
    cases result with
    | error cause => exact ⟨_, rfl, .error cause, rfl, .of_pipe stays kept fresh⟩
    | ok transformed =>
      cases transformed with
      | noChange => exact ⟨_, rfl, .ok ⟨rfl, kept⟩, rfl, .of_pipe stays kept fresh⟩
      | value new =>
        have newSound := parts.2 new rfl
        exact ⟨_, rfl, .ok ⟨rfl, newSound⟩, rfl, .of_pipe stays newSound fresh⟩

theorem apply_follows (located : Located P home still) (holds : slot.Sound P home)
    (sound : value.Sound P) (name : String) (args : List Value) :
    ∃ ran, slot.apply (.default hosted) home name value args state = (ran, state) ∧
      Follows P home ran (slot.image.apply still name value.timeless) := by
  have images : (slot.image.pipe.filter fun pipe => pipe.kind.supports value.timeless) =
      (slot.pipe.filter fun live => live.image.kind.supports value).map LivePipe.image := by
    simp only [supports_timeless, image, Option.filter_map]
    rfl
  unfold Still.apply
  simp only [apply, Bind.bind, StateT.bind, keep_eq, images, choose_timeless]
  cases kept : slot.pipe.filter fun live => live.image.kind.supports value with
  | some live =>
    have held := (Option.filter_eq_some_iff.mp kept).1
    exact feed_follows hosted state located slot (holds.pipe live held) holds.last sound holds.fresh args
  | none =>
    simp only [StateT.bind, select_eq, Option.map_none]
    cases Still.choose name value with
    | error cause =>
      have emptied : Sound P home { slot with pipe := none } :=
        ⟨fun _ impossible => (nomatch impossible), holds.last, holds.fresh⟩
      exact ⟨_, rfl, .error cause, rfl, emptied⟩
    | ok kind =>
      have created : LivePipe.Sound P home (.builtIn (.create kind) (.part slot.made home) 0) :=
        ⟨BuiltInPipe.create_sound P kind, slot.made, rfl,
          fun later _ => holds.fresh slot.made (Nat.le_refl slot.made) later⟩
      have fresh (later : Nat) (behind : slot.made + 1 ≤ later) (transforms : Nat) :
          home.Fresh later transforms := holds.fresh later (Nat.le_of_succ_le behind) transforms
      have follows := feed_follows hosted state located { slot with made := slot.made + 1 } created
        holds.last sound fresh args
      rw [LivePipe.image, BuiltInPipe.create_timeless] at follows
      exact follows

/-- The slots of a watched expression beside their images, in some state of the application. Every
slot holds what its own part of the expression makes. -/
structure Kept (state : σ) (place : Place) (owner : Nat → List Nat)
    (current : σ × List (PipeSlot Empty)) (model : Unit × List Still) : Prop where
  state : current.1 = state
  images : model.2 = current.2.map image
  sound : ∀ (index : Nat) (slot : PipeSlot Empty), current.2[index]? = some slot →
    slot.Sound (Grown place owner (owner index)) (place.slot index)

variable {detector index : Nat} {owner : Nat → List Nat}

theorem located (detector index : Nat) (owner : Nat → List Nat) (slot : Nat) :
    Located (Grown (.ofBinding detector index) owner (owner slot))
      ((Place.ofBinding detector index).slot slot)
      (.part 0 (.part (Epoch.made slot) ((Place.ofBinding detector index).slot slot))) where
  covered made transforms inner := by
    rw [show (Place.part transforms (.part made ((Place.ofBinding detector index).slot slot))).within
      inner = ((Place.ofBinding detector index).slot slot).within (inner ++ [transforms, made]) from
      (Place.within_append _ inner [transforms, made]).symm]
    exact .piped (List.suffix_refl _) _
  timed made transforms fresh inner := Place.timeless_slot (fresh inner)

theorem host_refines (slot : Nat) (name : String) {value : Value} {args others : List Value}
    (sound : value.Sound (Grown (.ofBinding detector index) owner (owner slot))) :
    Refines (Kept state (.ofBinding detector index) owner)
      (Applied.Image (Grown (.ofBinding detector index) owner (owner slot)))
      ((host (.default hosted) (.part 1 (.ofBinding detector index))).apply slot name value args)
      ((Still.host (.part 1 (.ofBinding detector index))).apply slot name value.timeless
        others) := by
  rintro ⟨current, slots⟩ ⟨_, stills⟩ ⟨rfl, rfl, holds⟩
  simp only [host, Still.host, List.getElem?_map]
  cases found : slots[slot]? with
  | none => exact ⟨.error _, rfl, rfl, holds⟩
  | some held =>
    obtain ⟨ran, applied, follows⟩ := apply_follows hosted current
      (located detector index owner slot) (holds slot held found) sound name args
    obtain ⟨result, after⟩ := ran
    have kept : Kept current (.ofBinding detector index) owner (current, slots.set slot after)
        ((), (slots.map image).set slot after.image) := by
      refine ⟨rfl, List.map_set.symm, ?_⟩
      intro other held found
      rw [List.getElem?_set] at found
      split at found
      · rename_i same
        subst same
        split at found <;> cases found
        exact follows.sound
      · exact holds other held found
    obtain ⟨results, images, -⟩ := follows
    change apply _ (.part slot (.part 1 _)) _ _ _ _ _ = _ at applied
    simp only [Option.map_some, applied]
    change Agree _ _ (Still.apply (.part 0 (.part _ (.part slot (.part 1 _)))) _ _ _).1 at results
    change (Still.apply (.part 0 (.part _ (.part slot (.part 1 _)))) _ _ _).2 = _ at images
    generalize Still.apply _ name value.timeless held.image = model at results images ⊢
    obtain ⟨modelResult, still⟩ := model
    change still = after.image at images
    subst images
    change Agree _ result modelResult at results
    cases results with
    | error cause => exact ⟨.error _, kept⟩
    | ok related => exact ⟨.ok related, kept⟩

end PipeSlot
end ChangeWatch
