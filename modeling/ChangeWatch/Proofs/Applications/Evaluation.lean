import ChangeWatch.Proofs.Strategies
import ChangeWatch.Proofs.Unparsing.Canonical

/-!
Which pipes an evaluation applies. Whatever it skips and wherever it stops, it applies pipes of the
expression in the order in which they are complete, so another host of pipes that does the same in their
slots would have served as well.
-/
namespace ChangeWatch

namespace Request

/-- The slot of the pipe that is applied. -/
def slot? : Request → Option Nat
  | pipe slot _ _ _ => some slot
  | _ => none

/-- The slots of the pipes that are applied, in the order of the applications. -/
def slots (requests : List Request) : List Nat := requests.filterMap slot?

theorem slots_append (first last : List Request) : slots (first ++ last) = slots first ++ slots last :=
  List.filterMap_append

end Request

/-- Hosts that do the same in a slot, as long as something holds of the pipes, and keep that. -/
structure PipeHost.Agree (kept : π → Prop) (first second : PipeHost σ π) (slot : Nat) : Prop where
  same : ∀ name value args state pipes, kept pipes →
    first.apply slot name value args (state, pipes) = second.apply slot name value args (state, pipes)
  keeps : ∀ name value args state pipes, kept pipes →
    kept (second.apply slot name value args (state, pipes)).2.2

theorem PipeHost.Agree.refl (host : PipeHost σ π) (slot : Nat) :
    Agree (fun _ => True) host host slot where
  same _ _ _ _ _ _ := rfl
  keeps _ _ _ _ _ _ := trivial

/-- The first computation is the second one with its requests noted, and the slots of the pipes that it
applies are some of the given ones in their order. Both may use different pipes, if these do the same in the
given slots. -/
def Eval.Applies (kept : π → Prop) (agree : Nat → Prop) (slots : List Nat)
    (noted : Eval (σ × List Request) π α) (plain : Eval σ π α) : Prop :=
  (∀ slot ∈ slots, agree slot) → ∀ state before pipes, kept pipes → ∃ added,
    noted ((state, before), pipes) = ((plain (state, pipes)).1,
      ((plain (state, pipes)).2.1, before ++ added), (plain (state, pipes)).2.2) ∧
    (Request.slots added).Sublist slots ∧ kept (plain (state, pipes)).2.2

namespace Eval.Applies

variable {kept : π → Prop} {agree : Nat → Prop} {slots first last : List Nat}

theorem mono {noted : Eval (σ × List Request) π α} {plain : Eval σ π α}
    (applies : Applies kept agree first noted plain) (fewer : first.Sublist slots) :
    Applies kept agree slots noted plain := by
  intro same state before pipes good
  obtain ⟨added, ran, ordered, good⟩ :=
    applies (fun slot member => same slot (fewer.subset member)) state before pipes good
  exact ⟨added, ran, ordered.trans fewer, good⟩

theorem ofExcept (result : Except EvalError α) :
    Applies kept agree slots (.ofExcept result : Eval (σ × List Request) π α) (.ofExcept result) :=
  fun _ _ before _ good => ⟨[], by rw [List.append_nil]; rfl, slots.nil_sublist, good⟩

/-- An access applies no pipe. -/
theorem access {request : Request} (other : request.slot? = none) (access : Access σ α) :
    Applies kept agree slots (.access (access.noted request) : Eval (σ × List Request) π α)
      (.access access) := by
  intro _ state before pipes good
  have none : Request.slots [request] = [] := List.filterMap_cons_none other
  refine ⟨[request], ?_, none ▸ slots.nil_sublist, ?_⟩
  · simp only [Eval.access, Access.noted]
    rcases access state with ⟨result, after⟩
    cases result <;> rfl
  · simp only [Eval.access]
    rcases access state with ⟨result, after⟩
    cases result <;> exact good

theorem bind {noted : Eval (σ × List Request) π α} {plain : Eval σ π α}
    {notedNext : α → Eval (σ × List Request) π β} {next : α → Eval σ π β}
    (before : Applies kept agree first noted plain)
    (after : ∀ value, Applies kept agree last (notedNext value) (next value)) :
    Applies kept agree (first ++ last) (noted >>= notedNext) (plain >>= next) := by
  intro same state noticed pipes good
  obtain ⟨agreed, agreed'⟩ := List.forall_mem_append.mp same
  obtain ⟨added, ran, ordered, good⟩ := before agreed state noticed pipes good
  rw [Stateful.bind_apply, Stateful.bind_apply, ran]
  generalize plain (state, pipes) = ended at good ⊢
  obtain ⟨result, between, pipesBetween⟩ := ended
  cases result with
  | error cause => exact ⟨added, rfl, ordered.trans (List.sublist_append_left first last), good⟩
  | ok value =>
    obtain ⟨added', ran, ordered', good⟩ := after value agreed' between (noticed ++ added) pipesBetween good
    refine ⟨added ++ added', ?_, ?_, good⟩
    · rw [← List.append_assoc]
      exact ran
    · rw [Request.slots_append]
      exact ordered.append ordered'

theorem apply {host other : PipeHost σ π} (slot : Nat) (name : String) (value : Value)
    (args : List Value) :
    Applies kept (host.Agree kept other) [slot] (host.noted.apply slot name value args)
      (other.apply slot name value args) := by
  intro agree state before pipes good
  have agrees := agree slot List.mem_cons_self
  refine ⟨[.pipe slot name value args], ?_, .refl _, agrees.keeps name value args state pipes good⟩
  rw [← agrees.same name value args state pipes good]
  rfl

end Eval.Applies

/-- Computations that apply pipes of the slots that they use, in their order. -/
def Eval.Likeness.applying (kept : π → Prop) (agree : Nat → Prop) :
    Likeness (σ × List Request) π σ π where
  Holds uses noted plain := Applies kept agree (uses.filterMap Use.slot?) noted plain
  ofExcept := Applies.ofExcept
  bind before after := by
    rw [List.filterMap_append]
    exact before.bind after
  mono applies fewer := applies.mono (fewer.filterMap _)

open Eval (Applies)

theorem Setting.applying_alike (kept : π → Prop) (setting : Setting σ π) (other : PipeHost σ π) :
    Setting.Alike (.applying kept (setting.pipes.Agree kept other)) setting.noted
      { setting with pipes := other } :=
  .of_scope
    { call := fun _ _ => Applies.access rfl _
      readField := fun _ _ => Applies.access rfl _
      readKeyed := fun _ _ => Applies.access rfl _
      invoke := fun _ _ _ => Applies.access rfl _ }
    rfl Applies.apply

namespace Expr

open Code

variable (origin : Place)

mutual
/-- Code uses pipes of its expression in their order. -/
theorem slots_of_lower (path : List Nat) : (e : Expr) →
    ((e.lower origin path).uses.filterMap Use.slot?).Sublist e.pipeSlots
  | implicit | literal _ => .slnil
  | property receiver name => by
    rw [lower, pipeSlots]
    split
    · exact List.nil_sublist _
    · exact slots_of_lower _ receiver
  | keyed receiver key => by
    rw [lower, uses, pipeSlots, List.filterMap_append]
    exact (slots_of_lower _ receiver).append (slots_of_lower _ key)
  | method receiver name args => by
    have given := slotsAll_of_lower path 1 args
    rw [lower, pipeSlots]
    split
    · have none : [Use.name name].filterMap Use.slot? = [] := rfl
      rw [uses, List.filterMap_append, none, List.append_nil]
      exact given.trans (List.sublist_append_right _ _)
    · rw [uses, List.filterMap_append]
      exact (slots_of_lower _ receiver).append given
  | apply target args => by
    rw [lower, uses, pipeSlots, List.filterMap_append]
    exact (slots_of_lower _ target).append (slotsAll_of_lower path 1 args)
  | unary op operand => by
    rw [lower, uses_ofUnary, pipeSlots]
    exact slots_of_lower _ operand
  | binary op left right => by
    rw [lower, uses_ofBinary, pipeSlots, List.filterMap_append]
    exact (slots_of_lower _ left).append (slots_of_lower _ right)
  | conditional condition yes no => by
    refine ((uses_lower_conditional origin path condition yes no).filterMap _).trans ?_
    rw [pipeSlots, List.append_assoc, List.filterMap_append, List.filterMap_append]
    exact (slots_of_lower _ condition).append ((slots_of_lower _ yes).append (slots_of_lower _ no))
  | array items => by
    rw [uses_lower_array, pipeSlots]
    exact slotsAll_of_lower path 0 items
  | map entries => by
    rw [uses_lower_map, pipeSlots]
    exact slotsEntries_of_lower path 0 entries
  | pipe exp name args slot => by
    rw [lower, uses, pipeSlots, List.append_assoc, List.filterMap_append, List.filterMap_append]
    exact (slots_of_lower _ exp).append ((slotsAll_of_lower path 1 args).append (.refl _))
  | interpolation strings expressions => by
    rw [lower, uses, pipeSlots]
    exact slotsAll_of_lower path 0 expressions

theorem slotsAll_of_lower (path : List Nat) (index : Nat) : (es : List Expr) →
    ((usesAll (lowerAll origin path index es)).filterMap Use.slot?).Sublist (pipeSlotsAll es)
  | [] => .slnil
  | e :: es => by
    rw [lowerAll, usesAll, pipeSlotsAll, List.filterMap_append]
    exact (slots_of_lower _ e).append (slotsAll_of_lower path (index + 1) es)

theorem slotsEntries_of_lower (path : List Nat) (index : Nat) : (entries : List (String × Expr)) →
    ((usesAll (lowerEntries origin path index entries)).filterMap Use.slot?).Sublist
      (pipeSlotsEntries entries)
  | [] => .slnil
  | (_, e) :: entries => by
    rw [lowerEntries, usesAll, pipeSlotsEntries, List.filterMap_append]
    exact (slots_of_lower _ e).append (slotsEntries_of_lower path (index + 1) entries)
end

end Expr

theorem Program.evaluate_applies {kept : π → Prop} (setting : Setting σ π) (other : PipeHost σ π)
    (origin base : Place) (e : Expr) :
    Applies kept (setting.pipes.Agree kept other) e.pipeSlots
      ((ofExpr origin e).evaluate setting.noted base)
      ((ofExpr origin e).evaluate { setting with pipes := other } base) := by
  have applies := (ofExpr origin e).evaluate_alike (setting.applying_alike kept other) base
  rw [uses_ofExpr] at applies
  exact applies.mono (Expr.slots_of_lower origin [] e)

namespace Evaluator

variable (strategy : Strategy) (source : Source) (place : Place) (number : Nat) (setting : Setting σ π)

theorem evaluate_applies {kept : π → Prop} (other : PipeHost σ π) :
    Eval.Applies kept (setting.pipes.Agree kept other) source.expr.pipeSlots
      ((make strategy source place).evaluate setting.noted place number)
      ((make strategy source place).evaluate { setting with pipes := other } place number) := by
  obtain ⟨origin, evaluates⟩ := evaluate_make strategy source place number
  rw [evaluates, evaluates]
  exact Program.evaluate_applies setting other origin _ source.expr

/-- An evaluation is the same with any other pipes that do the same in the slots of the expression. -/
theorem evaluate_congr {kept : π → Prop} {other : PipeHost σ π} {pipes : π}
    (agree : ∀ slot ∈ source.expr.pipeSlots, setting.pipes.Agree kept other slot) (good : kept pipes)
    (state : σ) :
    (make strategy source place).evaluate { setting with pipes := other } place number (state, pipes) =
      (make strategy source place).evaluate setting place number (state, pipes) := by
  obtain ⟨_, ran, -⟩ :=
    evaluate_applies strategy source place number setting other agree state [] pipes good
  obtain ⟨_, ran', -⟩ := evaluate_applies strategy source place number setting setting.pipes
    (fun slot _ => .refl setting.pipes slot) state [] pipes trivial
  obtain ⟨result, worlds⟩ := Prod.mk.inj (ran.symm.trans ran')
  obtain ⟨noticed, behind⟩ := Prod.mk.inj worlds
  exact Prod.ext result (Prod.ext (Prod.mk.inj noticed).1 behind)

end Evaluator
end ChangeWatch
