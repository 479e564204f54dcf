import ChangeWatch.Proofs.Applications.Evaluation
import ChangeWatch.Proofs.Rehearsal.Bindings
import ChangeWatch.Proofs.Strategies

/-!
Pipes at the roots of expressions. No other part of an expression uses the slot of the pipe at its root,
so that pipe is as it was when it is fed. A pipe that has just been made publishes what it is fed with.
-/
namespace ChangeWatch

theorem BuiltInPipe.create_publishes {kind : BuiltIn} {value : Value}
    (supported : kind.supports value = true) (place : Place) :
    ∃ published, ((create kind).transform place value).1 = .ok (.value published) := by
  cases kind <;> cases value <;> first | exact ⟨_, rfl⟩ | cases supported

/-- A slot without a pipe gets one that publishes something, or stays without. -/
theorem PipeSlot.apply_empty (hosted : HostedPipes σ κ) (place : Place) (name : String)
    (value : Value) (args : List Value) {slot : PipeSlot κ} (empty : slot.pipe = none) (state : σ) :
    (∃ published next, slot.apply (.default hosted) place name value args state =
      ((.ok (.changed published), next), state)) ∨
    ∃ cause next, slot.apply (.default hosted) place name value args state =
      ((.error cause, next), state) ∧ next.pipe = none := by
  have kept : slot.keep (.default hosted) value state = (none, state) := by
    unfold keep
    rw [empty]
    rfl
  simp only [apply, Bind.bind, StateT.bind, kept, select_eq]
  cases chosen : Still.choose name value with
  | error cause => exact .inr ⟨cause, _, rfl, rfl⟩
  | ok kind =>
    obtain ⟨published, made⟩ := BuiltInPipe.create_publishes (Still.supports_of_choose chosen)
      (.part 0 (.part slot.made place))
    left
    rcases transformed : (BuiltInPipe.create kind).transform (.part 0 (.part slot.made place)) value
      with ⟨result, pipe⟩
    rw [transformed] at made
    cases made
    simp only [Except.map, feed, Registry.transform, transformed]
    exact ⟨published, _, rfl⟩

namespace Expr

variable {owner : Nat → List Nat}

private theorem depth_of_part {path : List Nat} {slots : List Nat}
    (inner : ∀ slot ∈ slots, path.length < (owner slot).length) :
    ∀ slot ∈ slots, path.length ≤ (owner slot).length :=
  fun slot member => Nat.le_of_lt (inner slot member)

mutual
/-- The pipes of an expression are in no other place than in it and its parts. -/
theorem depth_of_placed (path : List Nat) : (e : Expr) → e.Placed owner path →
    ∀ slot ∈ e.pipeSlots, path.length ≤ (owner slot).length
  | implicit, _ | literal _, _ => nofun
  | property receiver _, placed => depth_of_part (depth_of_placed (0 :: path) receiver placed)
  | keyed receiver key, placed => by
    rw [pipeSlots, List.forall_mem_append]
    exact ⟨depth_of_part (depth_of_placed (0 :: path) receiver placed.1),
      depth_of_part (depth_of_placed (1 :: path) key placed.2)⟩
  | method receiver _ args, placed => by
    rw [pipeSlots, List.forall_mem_append]
    exact ⟨depth_of_part (depth_of_placed (0 :: path) receiver placed.1),
      depth_of_part (depthAll_of_placed path 1 args placed.2)⟩
  | apply target args, placed => by
    rw [pipeSlots, List.forall_mem_append]
    exact ⟨depth_of_part (depth_of_placed (0 :: path) target placed.1),
      depth_of_part (depthAll_of_placed path 1 args placed.2)⟩
  | unary _ operand, placed => depth_of_part (depth_of_placed (0 :: path) operand placed)
  | binary _ left right, placed => by
    rw [pipeSlots, List.forall_mem_append]
    exact ⟨depth_of_part (depth_of_placed (0 :: path) left placed.1),
      depth_of_part (depth_of_placed (1 :: path) right placed.2)⟩
  | conditional condition yes no, placed => by
    rw [pipeSlots, List.forall_mem_append, List.forall_mem_append]
    exact ⟨⟨depth_of_part (depth_of_placed (0 :: path) condition placed.1),
      depth_of_part (depth_of_placed (1 :: path) yes placed.2.1)⟩,
      depth_of_part (depth_of_placed (2 :: path) no placed.2.2)⟩
  | array items, placed => depth_of_part (depthAll_of_placed path 0 items placed)
  | map entries, placed => depth_of_part (depthEntries_of_placed path 0 entries placed)
  | pipe exp _ args slot, placed => by
    rw [pipeSlots, List.forall_mem_append, List.forall_mem_append, List.forall_mem_singleton]
    exact ⟨⟨depth_of_part (depth_of_placed (0 :: path) exp placed.1),
      depth_of_part (depthAll_of_placed path 1 args placed.2.1)⟩,
      Nat.le_of_eq (congrArg List.length placed.2.2.symm)⟩
  | interpolation _ expressions, placed => depth_of_part (depthAll_of_placed path 0 expressions placed)

theorem depthAll_of_placed (path : List Nat) (index : Nat) : (es : List Expr) →
    PlacedAll owner path index es → ∀ slot ∈ pipeSlotsAll es, path.length < (owner slot).length
  | [], _ => nofun
  | e :: es, placed => by
    rw [pipeSlotsAll, List.forall_mem_append]
    exact ⟨depth_of_placed (index :: path) e placed.1, depthAll_of_placed path (index + 1) es placed.2⟩

theorem depthEntries_of_placed (path : List Nat) (index : Nat) : (entries : List (String × Expr)) →
    PlacedEntries owner path index entries →
      ∀ slot ∈ pipeSlotsEntries entries, path.length < (owner slot).length
  | [], _ => nofun
  | (_, e) :: entries, placed => by
    rw [pipeSlotsEntries, List.forall_mem_append]
    exact ⟨depth_of_placed (index :: path) e placed.1,
      depthEntries_of_placed path (index + 1) entries placed.2⟩
end

end Expr

section Parts

variable {R : σ × π → σ × π → Prop}

/-- Everything that the proper parts of an expression may do outside stays within a relation. -/
structure Setting.AlongParts (setting : Setting σ π) (owner : Nat → List Nat)
    (R : σ × π → σ × π → Prop) : Prop where
  host : ∀ pipes, setting.host.Along fun state after => R (state, pipes) (after, pipes)
  apply : ∀ slot, owner slot ≠ [] → ∀ name value args,
    Stateful.Along R (setting.pipes.apply slot name value args)

variable [Std.Refl R] [Trans R R R] {setting : Setting σ π} {owner : Nat → List Nat}

namespace Setting.AlongParts

variable (along : setting.AlongParts owner R)
include along

theorem alike : Setting.Alike
    ((Eval.Likeness.along R).given fun use => ∀ slot, use.slot? = some slot → owner slot ≠ [])
    setting setting :=
  .of_scope ((Host.alike_of_along along.host).given _) rfl fun slot name value args inner =>
    along.apply slot (inner _ List.mem_cons_self slot rfl) name value args

variable (origin base : Place)

/-- The code of a proper part of an expression stays within the relation. -/
theorem run {e : Expr} {step : Nat} {path : List Nat} (placed : e.Placed owner (step :: path)) :
    Stateful.Along R ((e.lower origin (step :: path)).run setting base) := by
  refine Code.run_alike along.alike base _ fun use used slot own => ?_
  have within := (e.slots_of_lower origin _).subset (List.mem_filterMap.mpr ⟨use, used, own⟩)
  exact List.ne_nil_of_length_pos (Nat.zero_lt_of_lt (e.depth_of_placed _ placed slot within))

theorem runAll {es : List Expr} {path : List Nat} {index : Nat}
    (placed : Expr.PlacedAll owner path index es) :
    Stateful.Along R (Code.runAll setting base (Expr.lowerAll origin path index es)) := by
  refine Code.runAll_alike along.alike base _ fun use used slot own => ?_
  have within := (Expr.slotsAll_of_lower origin path index es).subset
    (List.mem_filterMap.mpr ⟨use, used, own⟩)
  exact List.ne_nil_of_length_pos
    (Nat.zero_lt_of_lt (Expr.depthAll_of_placed path index es placed slot within))

end Setting.AlongParts
end Parts

/-- There is no pipe at the root of an expression with certain slots, or it has yet to be made. -/
def Expr.RootEmpty (e : Expr) (slots : List (PipeSlot κ)) : Prop :=
  ∀ exp name args index, e = .pipe exp name args index →
    ∀ slot, slots[index]? = some slot → slot.pipe = none

/-- Slots that agree on one index. -/
private def SameSlot (index : Nat) (first second : σ × List (PipeSlot κ)) : Prop :=
  second.2[index]? = first.2[index]?

private instance (index : Nat) : Std.Refl (SameSlot (σ := σ) (κ := κ) index) where
  refl _ := rfl

private instance (index : Nat) :
    Trans (SameSlot (σ := σ) (κ := κ) index) (SameSlot index) (SameSlot index) where
  trans first second := Eq.trans second first

section Roots

variable (host : Host σ) (scope : Scope) (hosted : HostedPipes σ κ)

/-- The parts of an expression leave the slot alone that its root owns. -/
theorem PipeSlot.alongParts (place : Place) {owner : Nat → List Nat} {index : Nat}
    (root : owner index = []) :
    Setting.AlongParts { host, scope, pipes := PipeSlot.host (.default hosted) place } owner
      (SameSlot index) where
  host _ := ⟨fun _ _ _ => rfl, fun _ _ _ => rfl, fun _ _ _ => rfl, fun _ _ _ _ => rfl⟩
  apply slot inner name value args := by
    have apart : slot ≠ index := fun same => inner (same ▸ root)
    rintro ⟨state, slots⟩
    simp only [PipeSlot.host, SameSlot]
    split
    · rfl
    · split <;> exact List.getElem?_set_ne apart

/-- A pipe that has yet to be made publishes something or is not made. -/
theorem PipeSlot.host_empty (place : Place) (index : Nat) (name : String) (value : Value)
    (args : List Value) {slots : List (PipeSlot κ)}
    (empty : ∀ slot, slots[index]? = some slot → slot.pipe = none) (state : σ) :
    let ended := (PipeSlot.host (.default hosted) place).apply index name value args (state, slots)
    (∃ published, ended.1 = .ok (.changed published)) ∨
      (∃ cause, ended.1 = .error cause) ∧
        ∀ slot, ended.2.2[index]? = some slot → slot.pipe = none := by
  simp only [PipeSlot.host]
  cases found : slots[index]? with
  | none => exact .inr ⟨⟨_, rfl⟩, fun slot impossible => by cases found.symm.trans impossible⟩
  | some slot =>
    rcases slot.apply_empty hosted (.part index place) name value args (empty slot found) state with
      ⟨published, next, applied⟩ | ⟨cause, next, applied, still⟩
    · simp only [applied]
      exact .inl ⟨published, rfl⟩
    · simp only [applied]
      refine .inr ⟨⟨_, rfl⟩, fun other held => ?_⟩
      rw [List.getElem?_set_self (List.getElem?_eq_some_iff.mp found).1] at held
      exact Option.some.inj held ▸ still

/-- While there is no pipe at the root yet, evaluations find a value or fail, and in that case there is
none behind them either. -/
theorem Program.evaluate_rootEmpty (place : Place) {owner : Nat → List Nat} {e : Expr}
    (placed : e.Placed owner []) (origin base : Place) {slots : List (PipeSlot κ)}
    (empty : e.RootEmpty slots) (state : σ) :
    let setting : Setting σ (List (PipeSlot κ)) :=
      { host, scope, pipes := PipeSlot.host (.default hosted) place }
    let ended := (Program.ofExpr origin e).evaluate setting base (state, slots)
    (∃ value, ended.1 = .ok (.value value)) ∨
      (∃ cause, ended.1 = .error cause) ∧ e.RootEmpty ended.2.2 := by
  intro setting
  cases e with
  | pipe exp name args index =>
    have along : setting.AlongParts owner (SameSlot index) :=
      PipeSlot.alongParts host scope hosted place placed.2.2
    have still {world : σ × List (PipeSlot κ)} (same : SameSlot index (state, slots) world) :
        ∀ slot, world.2[index]? = some slot → slot.pipe = none := fun slot held =>
      empty _ _ _ _ rfl slot (same.symm.trans held)
    have rooted {slots : List (PipeSlot κ)}
        (still : ∀ slot, slots[index]? = some slot → slot.pipe = none) :
        (Expr.pipe exp name args index).RootEmpty slots := by
      rintro _ _ _ _ ⟨⟩
      exact still
    have first := along.run origin base placed.1 (state, slots)
    simp only [Program.ofExpr, Program.evaluate, Stateful.bind_apply]
    generalize (exp.lower origin [0]).run setting base (state, slots) = ran at first ⊢
    obtain ⟨found, between⟩ := ran
    cases found with
    | error cause => exact .inr ⟨⟨cause, rfl⟩, rooted (still first)⟩
    | ok value =>
      have second := along.runAll origin base placed.2.1 between
      simp only
      generalize Code.runAll setting base (Expr.lowerAll origin [] 1 args) between = ran at second ⊢
      obtain ⟨found, later⟩ := ran
      cases found with
      | error cause => exact .inr ⟨⟨cause, rfl⟩, rooted (still (Trans.trans first second))⟩
      | ok values =>
        have third := PipeSlot.host_empty hosted place index name value values
          (still (Trans.trans first second)) later.1
        change (∃ published, (setting.pipes.apply index name value values later).1 = _) ∨ _ at third
        simp only
        generalize setting.pipes.apply index name value values later = ran at third ⊢
        obtain ⟨applied, ended⟩ := ran
        rcases third with ⟨published, rfl⟩ | ⟨⟨cause, rfl⟩, empty⟩
        · exact .inl ⟨published, rfl⟩
        · exact .inr ⟨⟨cause, rfl⟩, rooted empty⟩
  | _ =>
    simp only [Program.ofExpr, Program.evaluate, Stateful.bind_apply]
    generalize Code.run setting base _ (state, slots) = ran
    obtain ⟨found, later⟩ := ran
    cases found with
    | error cause =>
      refine .inr ⟨⟨cause, rfl⟩, ?_⟩
      rintro _ _ _ _ ⟨⟩
    | ok value => exact .inl ⟨value, rfl⟩

end Roots
end ChangeWatch
