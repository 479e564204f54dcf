import ChangeWatch.Expr.Evaluate
import Mathlib.Data.List.Nodup

/-!
Places without their time. The containers that a watched expression makes are told apart by the number
of the evaluation, or by the number of the pipe and of its transform. From some moment on, a timeless
place forgets these numbers and still tells which part of the expression made the container.
-/
namespace ChangeWatch

namespace Place

def isHost : Place → Bool
  | host _ => true
  | detector _ => false
  | part _ whole => whole.isHost

def root : Place → Place
  | part _ whole => whole.root
  | place => place

/-- The steps from the root to a place. -/
def trail : Place → List Nat
  | part index whole => whole.trail ++ [index]
  | _ => []

/-- The steps to a container of a watched expression, with the numbers that tell when it was made set
back to given ones. -/
def setBack (number : Nat) (made : Nat → Nat) : List Nat → List Nat
  | binding :: 0 :: _ :: steps => binding :: 0 :: number :: steps
  | binding :: 1 :: slot :: _ :: _ :: steps => binding :: 1 :: slot :: made slot :: 0 :: steps
  | steps => steps

/-- The place of a container as if it had been made by the evaluation with a given number or by the
first application of a given pipe of its slot. -/
def back (number : Nat) (made : Nat → Nat) (place : Place) : Place :=
  place.root.within (setBack number made place.trail).reverse

theorem within_append (place : Place) (inner path : List Nat) :
    place.within (inner ++ path) = (place.within path).within inner := List.foldr_append

theorem trail_within (place : Place) (path : List Nat) :
    (place.within path).trail = place.trail ++ path.reverse := by
  induction path with
  | nil => simp [within]
  | cons index path ih =>
    rw [show place.within (index :: path) = .part index (place.within path) from rfl, trail, ih,
      List.reverse_cons, List.append_assoc]

theorem root_within (place : Place) (path : List Nat) : (place.within path).root = place.root := by
  induction path with
  | nil => rfl
  | cons index path ih => exact ih

theorem isHost_within (place : Place) (path : List Nat) :
    (place.within path).isHost = place.isHost := by
  induction path with
  | nil => rfl
  | cons index path ih => exact ih

/-- The way from one place to another is unique. -/
theorem within_injective {place : Place} {path other : List Nat}
    (same : place.within path = place.within other) : path = other := by
  have trails := congrArg trail same
  rw [trail_within, trail_within] at trails
  exact List.reverse_inj.mp (List.append_cancel_left trails)

/-- The place of a watched expression. -/
def ofBinding (detector index : Nat) : Place := .part index (.detector detector)

/-- The place of the evaluation with some number. -/
def evaluation (place : Place) (number : Nat) : Place := .part number (.part 0 place)

/-- The place of a pipe slot. -/
def slot (place : Place) (slot : Nat) : Place := .part slot (.part 1 place)

theorem evaluation_within (place : Place) (number : Nat) (path : List Nat) :
    (place.evaluation number).within path = place.within (path ++ [number, 0]) :=
  (place.within_append path [number, 0]).symm

theorem slot_within (place : Place) (slot : Nat) (path : List Nat) :
    (place.slot slot).within path = place.within (path ++ [slot, 1]) :=
  (place.within_append path [slot, 1]).symm

variable {detector index : Nat}

theorem ofBinding_within (detector index : Nat) (path : List Nat) :
    (ofBinding detector index).within path = (Place.detector detector).within (path ++ [index]) :=
  (within_append (.detector detector) path [index]).symm

theorem back_within (number : Nat) (made : Nat → Nat) (detector index : Nat) (path : List Nat) :
    back number made ((ofBinding detector index).within path) =
      (Place.detector detector).within (setBack number made (index :: path.reverse)).reverse := by
  rw [back, trail_within, root_within]
  rfl

theorem back_evaluation (number : Nat) (made : Nat → Nat) (later : Nat) (path : List Nat) :
    back number made (((ofBinding detector index).evaluation later).within path) =
      ((ofBinding detector index).evaluation number).within path := by
  rw [evaluation_within, back_within, evaluation_within, ofBinding_within]
  simp only [List.reverse_append, List.reverse_cons, List.reverse_nil, List.nil_append,
    List.cons_append, setBack, List.reverse_reverse, List.append_assoc]

theorem back_slot (number : Nat) (made : Nat → Nat) (slot pipe transforms : Nat)
    (path : List Nat) :
    back number made
        ((part transforms (part pipe ((ofBinding detector index).slot slot))).within path) =
      (part 0 (part (made slot) ((ofBinding detector index).slot slot))).within path := by
  have unfolded (pipe transforms : Nat) :
      (part transforms (part pipe ((ofBinding detector index).slot slot))).within path =
        (ofBinding detector index).within (path ++ [transforms, pipe, slot, 1]) :=
    ((ofBinding detector index).within_append path [transforms, pipe, slot, 1]).symm
  rw [unfolded, unfolded, back_within, ofBinding_within]
  simp only [List.reverse_append, List.reverse_cons, List.reverse_nil, List.nil_append,
    List.cons_append, setBack, List.reverse_reverse, List.append_assoc]

end Place

/-- A moment of a watched expression: which containers are yet to be made then, by which evaluation, and
by which pipe of every slot. The expression meets certain objects and functions of the application
only. -/
class Epoch where
  Yet : Place → Prop
  number : Nat
  made : Nat → Nat
  Object : ObjectRef → Prop
  Function : FunctionRef → Prop
  back : ∀ place, Yet place → Yet (place.back number made)

/-- A container that is there already, such as all containers of the host. -/
def Place.Given [Epoch] (place : Place) : Prop := ¬ Epoch.Yet place

open Classical in
/-- The place of a container whenever it is made. Places of given containers stay as they are. -/
noncomputable def Place.timeless [Epoch] (place : Place) : Place :=
  if Epoch.Yet place then place.back Epoch.number Epoch.made else place

namespace Place

variable {detector index : Nat}

section Timeless

variable [Epoch]

theorem timeless_of_given {place : Place} (given : place.Given) : place.timeless = place :=
  if_neg given

theorem timeless_of_yet {place : Place} (yet : Epoch.Yet place) :
    place.timeless = place.back Epoch.number Epoch.made :=
  if_pos yet

theorem given_timeless (place : Place) : place.timeless.Given ↔ place.Given := by
  by_cases yet : Epoch.Yet place
  · rw [timeless_of_yet yet]
    exact not_congr ⟨fun _ => yet, fun _ => Epoch.back place yet⟩
  · rw [timeless_of_given yet]

theorem timeless_evaluation {number : Nat} {path : List Nat}
    (yet : Epoch.Yet (((ofBinding detector index).evaluation number).within path)) :
    (((ofBinding detector index).evaluation number).within path).timeless =
      ((ofBinding detector index).evaluation Epoch.number).within path := by
  rw [timeless_of_yet yet, back_evaluation]

theorem timeless_slot {slot pipe transforms : Nat} {path : List Nat}
    (yet : Epoch.Yet
      ((part transforms (part pipe ((ofBinding detector index).slot slot))).within path)) :
    ((part transforms (part pipe ((ofBinding detector index).slot slot))).within path).timeless =
      (part 0 (part (Epoch.made slot) ((ofBinding detector index).slot slot))).within path := by
  rw [timeless_of_yet yet, back_slot]

/-- The image of a place and of all places within. -/
def Timed (place home : Place) : Prop := ∀ inner, (place.within inner).timeless = home.within inner

theorem Timed.whole {place home : Place} (timed : Timed place home) : place.timeless = home :=
  timed []

theorem Timed.part {place home : Place} (timed : Timed place home) (step : Nat) :
    Timed (.part step place) (.part step home) := by
  intro inner
  have whole := timed (inner ++ [step])
  rwa [within_append, within_append] at whole

end Timeless

/-- A kind of places with everything within. -/
def Covered (P : Place → Prop) (place : Place) : Prop := ∀ inner, P (place.within inner)

theorem Covered.whole {P : Place → Prop} {place : Place} (covered : Covered P place) : P place :=
  covered []

theorem Covered.part {P : Place → Prop} {place : Place} (covered : Covered P place) (step : Nat) :
    Covered P (.part step place) := by
  intro inner
  have whole := covered (inner ++ [step])
  rwa [within_append] at whole

/-- Paths that part at some step do not meet again. -/
theorem steps_eq {first second : Nat} {path whole : List Nat}
    (left : first :: path <:+ whole) (right : second :: path <:+ whole) : first = second := by
  have same := List.suffix_of_suffix_length_le left right (by simp)
  have equal := same.eq_of_length (by simp)
  exact (List.cons.inj equal).1

/-- The places of containers that a part of a watched expression makes: its literals, at the end of
its path, and the pipes whose own paths, given by their slots, lead through it. -/
inductive Grown (place : Place) (owner : Nat → List Nat) (path : List Nat) : Place → Prop where
  | literal (number : Nat) (inner : List Nat) :
    Grown place owner path ((place.evaluation number).within (inner ++ path))
  | piped {slot : Nat} (below : path <:+ owner slot) (inner : List Nat) :
    Grown place owner path ((place.slot slot).within inner)

namespace Grown

variable {place whole : Place} {owner : Nat → List Nat} {path : List Nat}

/-- What a part makes, the whole makes. -/
theorem of_part {step : Nat} (grown : Grown place owner (step :: path) whole) :
    Grown place owner path whole := by
  cases grown with
  | literal number inner =>
    rw [show inner ++ step :: path = (inner ++ [step]) ++ path by simp]
    exact .literal number (inner ++ [step])
  | piped below inner => exact .piped ((List.suffix_cons step path).trans below) inner

/-- Different parts make different containers. -/
theorem disjoint {first second : Nat} (different : first ≠ second)
    (left : Grown place owner (first :: path) whole)
    (right : Grown place owner (second :: path) whole) : False := by
  generalize same : whole = other at right
  cases left with
  | literal number inner =>
    cases right with
    | literal otherNumber otherInner =>
      rw [evaluation_within, evaluation_within] at same
      have steps := within_injective same
      simp only [List.append_assoc, List.cons_append] at steps
      have tails := List.append_inj_right' steps (by simp)
      simp only [List.cons.injEq] at tails
      exact different tails.1
    | piped below otherInner =>
      rw [evaluation_within, slot_within] at same
      have tails := List.append_inj_right' (within_injective same) rfl
      simp at tails
  | piped below inner =>
    cases right with
    | literal number otherInner =>
      rw [evaluation_within, slot_within] at same
      have tails := List.append_inj_right' (within_injective same) rfl
      simp at tails
    | piped otherBelow otherInner =>
      rw [slot_within, slot_within] at same
      have tails := List.append_inj_right' (within_injective same) rfl
      simp only [List.cons.injEq, and_true] at tails
      subst tails
      exact different (steps_eq below otherBelow)

theorem timeless [Epoch] (grown : Grown (ofBinding detector index) owner path whole) :
    Grown (ofBinding detector index) owner path whole.timeless := by
  by_cases yet : Epoch.Yet whole
  · rw [timeless_of_yet yet]
    cases grown with
    | literal number inner =>
      rw [back_evaluation]
      exact .literal Epoch.number inner
    | @piped slot below inner =>
      have built (steps : List Nat) : Grown (ofBinding detector index) owner path
          ((Place.detector detector).within (index :: 1 :: slot :: steps).reverse) := by
        have made := @Grown.piped (ofBinding detector index) owner path slot below steps.reverse
        rw [slot_within, ofBinding_within] at made
        simpa using made
      rw [slot_within, back_within]
      simp only [List.reverse_append, List.reverse_cons, List.reverse_nil, List.nil_append,
        List.cons_append]
      -- A place directly in the slot, or in one of its pipes, has no second number to set back.
      rcases inner.reverse with _ | ⟨made, _ | ⟨transforms, steps⟩⟩
      · exact built []
      · exact built [made]
      · exact built (Epoch.made slot :: 0 :: steps)
  · rw [timeless_of_given yet]
    exact grown

end Grown
end Place
end ChangeWatch
