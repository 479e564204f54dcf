import ChangeWatch.Proofs.Timeless.Watching

/-!
The present of a watched expression as an epoch. What its evaluations and its pipes are yet to make gets
less with every check, so values that were given at an earlier epoch are given now.
-/
namespace ChangeWatch

/-- A transform that a slot is yet to do, by a pipe to come or by the one that it has. -/
inductive PipeSlot.Coming (home : Place) (slot : PipeSlot Empty) : Nat → Nat → Prop where
  | pipe {made : Nat} (later : slot.made ≤ made) (transforms : Nat) : Coming home slot made transforms
  | transform {pipe : BuiltInPipe} {made earlier transforms : Nat}
    (held : slot.pipe = some (.builtIn pipe (.part made home) earlier))
    (later : earlier ≤ transforms) : Coming home slot made transforms

/-- The containers that an expression at some place is yet to make. -/
inductive Binding.Yet (binding : Binding Empty) (place : Place) : Place → Prop where
  | evaluation {number : Nat} (later : binding.evaluations ≤ number) (path : List Nat) :
    Yet binding place ((place.evaluation number).within path)
  | slot {index made transforms : Nat} {slot : PipeSlot Empty}
    (held : binding.slots[index]? = some slot) (coming : slot.Coming (place.slot index) made transforms)
    (path : List Nat) :
    Yet binding place ((Place.part transforms (.part made (place.slot index))).within path)

namespace Binding

/-- The present of an expression that meets certain objects and functions. -/
@[reducible] def epoch (binding : Binding Empty) (detector index : Nat) (known : ObjectRef → Prop)
    (calls : FunctionRef → Prop) : Epoch where
  Yet := binding.Yet (.ofBinding detector index)
  number := binding.evaluations
  made slot := (binding.slots[slot]?.map PipeSlot.made).getD 0
  Object := known
  Function := calls
  back place yet := by
    cases yet with
    | evaluation later path =>
      rw [Place.back_evaluation]
      exact .evaluation (Nat.le_refl _) path
    | slot held coming path =>
      rw [Place.back_slot]
      refine .slot held (.pipe ?_ 0) path
      rw [held]
      exact Nat.le_refl _

/-- An evaluation that is yet to come has not been counted. -/
theorem Yet.number {binding : Binding Empty} {place : Place} {number : Nat} {path : List Nat}
    (yet : binding.Yet place ((place.evaluation number).within path)) :
    binding.evaluations ≤ number := by
  generalize same : (place.evaluation number).within path = whole at yet
  cases yet with
  | evaluation later inner =>
    rw [Place.evaluation_within, Place.evaluation_within] at same
    have tails := List.append_inj_right' (Place.within_injective same) rfl
    simp only [List.cons.injEq, and_true] at tails
    rwa [tails]
  | @slot index made transforms slot held coming inner =>
    rw [Place.evaluation_within, show (Place.part transforms (.part made (place.slot index))).within
      inner = (place.slot index).within (inner ++ [transforms, made]) from
      (Place.within_append _ inner [transforms, made]).symm, Place.slot_within] at same
    have tails := List.append_inj_right' (Place.within_injective same) rfl
    simp at tails

/-- Whatever the application makes is given. -/
theorem given_of_isHost (binding : Binding Empty) (detector index : Nat) (known : ObjectRef → Prop)
    (calls : FunctionRef → Prop) {place : Place} (hosted : place.isHost = true) :
    @Place.Given (binding.epoch detector index known calls) place := by
  intro yet
  cases yet with
  | evaluation => cases (Place.isHost_within _ _).symm.trans hosted
  | slot => cases (Place.isHost_within _ _).symm.trans hosted

end Binding

/-- What is left to be made at one epoch was left at another, and nothing that was met is lost. -/
structure Epoch.Later (before now : Epoch) : Prop where
  yet : ∀ place, now.Yet place → before.Yet place
  objects : ∀ ref, before.Object ref → now.Object ref
  functions : ∀ ref, before.Function ref → now.Function ref

section Later

variable {before now : Epoch} {P : Place → Prop}

theorem Place.Given.afterwards (later : before.Later now) {place : Place}
    (given : @Place.Given before place) : @Place.Given now place :=
  fun yet => given (later.yet place yet)

namespace Value

mutual
theorem Sound.afterwards (later : before.Later now) :
    (value : Value) → @Sound before P value → @Sound now P value
  | list _ items, ⟨owned, sound⟩ =>
    ⟨owned.imp_left (.afterwards later), SoundItems.afterwards later items sound⟩
  | map _ entries, ⟨owned, distinct, sound⟩ =>
    ⟨owned.imp_left (.afterwards later), distinct, SoundEntries.afterwards later entries sound⟩
  | null, _ | bool _, _ | int _, _ | float _, _ | str _, _ => trivial
  | object ref, known => later.objects ref known
  | function ref, known => later.functions ref known

theorem SoundItems.afterwards (later : before.Later now) :
    (items : List Value) → @SoundItems before P items → @SoundItems now P items
  | [], _ => trivial
  | item :: items, ⟨first, others⟩ =>
    ⟨Sound.afterwards later item first, SoundItems.afterwards later items others⟩

theorem SoundEntries.afterwards (later : before.Later now) : (entries : List (String × Value)) →
    @SoundEntries before P entries → @SoundEntries now P entries
  | [], _ => trivial
  | (_, value) :: entries, ⟨first, others⟩ =>
    ⟨Sound.afterwards later value first, SoundEntries.afterwards later entries others⟩
end

end Value

theorem BuiltInPipe.Sound.afterwards (later : before.Later now) {pipe : BuiltInPipe}
    (sound : @BuiltInPipe.Sound before P pipe) : @BuiltInPipe.Sound now P pipe := by
  cases pipe with
  | placeholder published => trivial
  | listDiff previous =>
    exact fun items same item member => .afterwards later _ (sound items same item member)
  | mapDiff previous =>
    exact fun entries same entry member => .afterwards later _ (sound entries same entry member)

/-- A slot is sound at a later epoch if everything that it is yet to make is yet to be made then. -/
theorem PipeSlot.Sound.afterwards (later : before.Later now) {home : Place} {slot : PipeSlot Empty}
    (coming : ∀ made transforms, slot.Coming home made transforms →
      @Place.Fresh now home made transforms)
    (sound : @PipeSlot.Sound before P home slot) : @PipeSlot.Sound now P home slot := by
  obtain ⟨pipe, last, -⟩ := sound
  refine @PipeSlot.Sound.mk now _ _ _ ?_ (.afterwards later _ last)
    fun made behind transforms => coming made transforms (.pipe behind transforms)
  intro live held
  have remembered := pipe live held
  cases live with
  | hosted handle => exact nomatch handle
  | builtIn pipe place transforms =>
    obtain ⟨kept, made, rfl, -⟩ := remembered
    exact ⟨.afterwards later kept, made, rfl,
      fun further behind => coming made further (.transform held behind)⟩

end Later

namespace Watch

variable {watch : Watch} {binding : Binding Empty}

/-- Everything that is yet to be made now was yet to be made at the epoch. -/
theorem Holds.yet [Epoch] (holds : watch.Holds binding) (place : Place)
    (yet : binding.Yet watch.place place) : Epoch.Yet place := by
  cases yet with
  | evaluation later path => exact holds.later _ later path
  | slot held coming path =>
    have sound := holds.keeps _ _ held
    cases coming with
    | pipe later => exact sound.fresh _ later _ path
    | transform lives later =>
      obtain ⟨-, made, same, fresh⟩ := sound.pipe _ lives
      cases same
      exact fresh _ later path

/-- An expression whose slots hold what its parts make holds at present. -/
theorem Keeps.holds {known : ObjectRef → Prop} {calls : FunctionRef → Prop}
    (place : binding.place = watch.place)
    (evaluator : binding.evaluator = .make watch.strategy watch.source (.part 0 watch.place))
    (keeps : @Keeps (binding.epoch watch.detector watch.index known calls) watch binding.slots) :
    @Holds (binding.epoch watch.detector watch.index known calls) watch binding := by
  let present : Epoch := binding.epoch watch.detector watch.index known calls
  refine ⟨place, ⟨watch.strategy, evaluator, .inl rfl⟩, fun inner => ?_, ?_, keeps⟩
  · by_cases yet : binding.Yet watch.place ((watch.place.evaluation 0).within inner)
    · have first : binding.evaluations = 0 := Nat.le_zero.mp yet.number
      have back : ((watch.place.evaluation 0).within inner).timeless =
        (watch.place.evaluation binding.evaluations).within inner := Place.timeless_evaluation yet
      rwa [first] at back
    · exact Place.timeless_of_given yet
  · exact fun number behind path => .evaluation behind path

/-- An expression holds at present what it held at an earlier epoch. -/
theorem Holds.now {before : Epoch} (holds : @Holds before watch binding) {known : ObjectRef → Prop}
    {calls : FunctionRef → Prop} (objects : ∀ ref, before.Object ref → known ref)
    (functions : ∀ f, before.Function f → calls f) :
    ∃ strategy, @Holds (binding.epoch watch.detector watch.index known calls)
      { watch with strategy } binding := by
  have yet := @Holds.yet _ _ before holds
  obtain ⟨place, ⟨strategy, evaluator, -⟩, -, -, keeps⟩ := holds
  let present : Epoch := binding.epoch watch.detector watch.index known calls
  have later : before.Later present := ⟨yet, objects, functions⟩
  refine ⟨strategy, @Keeps.holds { watch with strategy } _ _ _ place evaluator ?_⟩
  intro index slot held
  exact .afterwards later (fun made transforms coming path => .slot held coming path)
    (keeps index slot held)

end Watch
end ChangeWatch
