import ChangeWatch.Expr.Scope
import ChangeWatch.Proofs.Stateful
import ChangeWatch.Proofs.Timeless.Values

/-!
Accesses to an application that only answers. In one state of the application, a mirror of it without
any state gives the same answers; neither sees the time at which a value was made.
-/
namespace ChangeWatch

open Stateful (Refines)

variable [Epoch]

/-- An access that keeps the state of the application, with an access to a mirror that finds the
timeless image. -/
abbrev Access.Mirrored (P : Place → Prop) (state : σ) (access : Access σ Value)
    (mirror : Access Unit Value) : Prop :=
  Refines (fun current _ => current = state) (Value.Image P) access mirror

/-- What the objects and functions that an expression meets answer in some state of the application,
with values made of given ones and of what they are called with. -/
structure Host.Mirrors (host : Host σ) (state : σ) (mirror : Host Unit) : Prop where
  call : ∀ f, Epoch.Function f → ∀ (P : Place → Prop) args, (∀ arg ∈ args, arg.Sound P) →
    Access.Mirrored P state (host.call f args) (mirror.call f (args.map Value.timeless))
  readField : ∀ ref, Epoch.Object ref → ∀ name, Access.Mirrored (fun _ => False) state
    (host.readField ref name) (mirror.readField ref name)
  readKeyed : ∀ ref, Epoch.Object ref → ∀ key, Access.Mirrored (fun _ => False) state
    (host.readKeyed ref key) (mirror.readKeyed ref key.timeless)
  invoke : ∀ ref, Epoch.Object ref → ∀ name (P : Place → Prop) args,
    (∀ arg ∈ args, arg.Sound P) → Access.Mirrored P state (host.invoke ref name args)
      (mirror.invoke ref name (args.map Value.timeless))

/-- A scope whose values are given. -/
structure Scope.Foreign (scope : Scope) : Prop where
  context : scope.context.Foreign
  locals : ∀ name value, scope.locals.resolve? name = some value → value.Foreign

namespace Value.Image

variable {P : Place → Prop}

theorem of_sound {value : Value} (sound : value.Sound P) : Image P value value.timeless :=
  ⟨rfl, sound⟩

theorem of_foreign {value : Value} (foreign : value.Foreign) : Image P value value :=
  ⟨(timeless_of_foreign value foreign).symm, foreign.sound P⟩

theorem of_host {value image : Value} (hosted : Image (fun _ => False) value image) :
    Image P value image :=
  ⟨hosted.1, Foreign.sound hosted.2 P⟩

/-- The answers of lists, strings and maps that are numbers are the same for the image. -/
theorem of_length {first second : Nat} (same : second = first) :
    Image P (ofNat first) (ofNat second) := by
  subst same
  exact of_foreign (ofNat_foreign second)

end Value.Image

namespace Access.Mirrored

open Value (Image)

variable {P : Place → Prop} {state : σ} {host : Host σ} {mirror : Host Unit}
  (mirrors : host.Mirrors state mirror)
include mirrors

theorem readField {receiver image : Value} (seen : Image P receiver image) (name : String) :
    Mirrored P state (receiver.readField host name) (image.readField mirror name) := by
  obtain ⟨rfl, sound⟩ := seen
  cases receiver with
  | object ref => exact (mirrors.readField ref sound name).mono fun _ _ => Image.of_host
  | map place entries =>
    simp only [Value.timeless, Value.readField, Value.timelessEntries_eq_mapValues,
      Entries.get?_mapValues]
    cases found : Entries.get? entries name with
    | some value =>
      exact .pure (.of_sound (Value.soundEntries_iff.mp sound.2.2 _ (Entries.mem_of_get? found)))
    | none =>
      simp only [Option.map_none]
      split
      · exact .pure (.of_length (List.length_map _))
      · exact .pure (.of_foreign trivial)
  | str s =>
    simp only [Value.timeless, Value.readField]
    split
    · exact .pure (.of_length rfl)
    · exact .throw _
  | list place items =>
    simp only [Value.timeless, Value.readField, Value.timelessItems_eq_map]
    split
    · exact .pure (.of_length (List.length_map _))
    · exact .throw _
  | _ => exact .throw _

theorem readKeyed {receiver image key keyImage : Value} (seen : Image P receiver image)
    (seenKey : keyImage = key.timeless) :
    Mirrored P state (receiver.readKeyed host key) (image.readKeyed mirror keyImage) := by
  obtain ⟨rfl, sound⟩ := seen
  subst seenKey
  have position : Value.position? key.timeless = Value.position? key := by cases key <;> rfl
  cases receiver with
  | object ref => exact (mirrors.readKeyed ref sound key).mono fun _ _ => Image.of_host
  | map place entries =>
    simp only [Value.timeless, Value.readKeyed, Value.timelessEntries_eq_mapValues,
      Entries.get?_mapValues, Value.display_timeless]
    cases found : Entries.get? entries key.display with
    | some value =>
      exact .pure (.of_sound (Value.soundEntries_iff.mp sound.2.2 _ (Entries.mem_of_get? found)))
    | none => exact .pure (.of_foreign trivial)
  | list place items =>
    simp only [Value.timeless, Value.readKeyed, position, Value.timelessItems_eq_map]
    cases Value.position? key with
    | none =>
      simp only [Value.display_timeless]
      exact .throw _
    | some index =>
      refine .pure ?_
      cases index with
      | none => exact .of_foreign trivial
      | some index =>
        simp only [Option.bind_some, List.getElem?_map]
        cases found : items[index]? with
        | none => exact .of_foreign trivial
        | some item =>
          exact .of_sound (Value.soundItems_iff.mp sound.2 _ (List.mem_of_getElem? found))
  | _ =>
    simp only [Value.timeless, Value.readKeyed, Value.display_timeless]
    exact .throw _

theorem invoke {receiver image : Value} (seen : Image P receiver image) (name : String)
    {args : List Value} (given : ∀ arg ∈ args, arg.Sound P) :
    Mirrored P state (receiver.invoke host name args)
      (image.invoke mirror name (args.map Value.timeless)) := by
  have read := readField mirrors seen name
  obtain ⟨rfl, sound⟩ := seen
  cases receiver with
  | object ref => exact mirrors.invoke ref sound name P args given
  | _ =>
    refine read.bind fun found image seen => ?_
    obtain ⟨rfl, known⟩ := seen
    cases found with
    | function f => exact mirrors.call f known P args given
    | _ => exact .throw _

theorem call (label : String) {target image : Value} (seen : Image P target image)
    {args : List Value} (given : ∀ arg ∈ args, arg.Sound P) :
    Mirrored P state (target.call host label args)
      (image.call mirror label (args.map Value.timeless)) := by
  obtain ⟨rfl, known⟩ := seen
  cases target with
  | function f => exact mirrors.call f known P args given
  | _ => exact .throw _

variable {scope : Scope} (foreign : scope.Foreign)
include foreign

theorem readName (name : String) :
    Mirrored P state (scope.readName host name) (scope.readName mirror name) := by
  unfold Scope.readName
  cases found : scope.locals.resolve? name with
  | some value => exact .pure (.of_foreign (foreign.locals name value found))
  | none => exact readField mirrors (.of_foreign foreign.context) name

theorem callName (name : String) {args : List Value} (given : ∀ arg ∈ args, arg.Sound P) :
    Mirrored P state (scope.callName host name args)
      (scope.callName mirror name (args.map Value.timeless)) := by
  unfold Scope.callName
  cases found : scope.locals.resolve? name with
  | some value => exact call mirrors name (.of_foreign (foreign.locals name value found)) given
  | none => exact invoke mirrors (.of_foreign foreign.context) name given

end Access.Mirrored
end ChangeWatch
