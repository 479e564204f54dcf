import ChangeWatch.Host.Record
import ChangeWatch.Proofs.Timeless.Access

/-!
Applications as watched expressions see them. A view of the state tells all answers. Where the objects
that expressions meet are records, and there is nothing to be called, the records are such a view.
-/
namespace ChangeWatch

/-- What a record answers when a field is read. -/
def Record.read (record : Record) (name : String) : Except ValueError Value :=
  match record.get? name with
  | some value => .ok value
  | none => .error (.unknownField record.typeName name)

/-- Certain objects of an application are records: their fields are read, by name or by what a key
displays as, and the methods they have are functions in their fields. -/
structure Host.Records (host : Host σ) (known : ObjectRef → Prop)
    (records : σ → ObjectRef → Record) : Prop where
  readField : ∀ ref, known ref → ∀ name state,
    host.readField ref name state = ((records state ref).read name, state)
  readKeyed : ∀ ref, known ref → ∀ key, host.readKeyed ref key = host.readField ref key.display
  invoke : ∀ ref, known ref → ∀ name args, host.invoke ref name args =
    (Host.ofFields host.call host.readField host.fields host.nesting).invoke ref name args

variable [Epoch]

/-- An application whose answers depend on a view of its state. Certain views hold given values only. -/
structure Application (σ ν : Type) where
  host : Host σ
  view : σ → ν
  mirror : ν → Host Unit
  Sane : ν → Prop
  mirrors : ∀ state, Sane (view state) → host.Mirrors state (mirror (view state))
  calm : ∀ seen, Sane seen → (mirror seen).Mirrors () (mirror seen)

/-- Records whose values are given. -/
def Record.Foreign (record : Record) : Prop := ∀ entry ∈ record.fields, entry.2.Foreign

theorem Record.Foreign.read {record : Record} (foreign : record.Foreign) {name : String}
    {value : Value} (found : record.read name = .ok value) : value.Foreign := by
  unfold Record.read at found
  split at found
  · rename_i held
    cases found
    exact foreign _ (Entries.mem_of_get? held)
  · cases found

namespace Host

/-- The records alone, which nothing changes. -/
def ofRecords (records : ObjectRef → Record) : Host Unit :=
  .ofFields (fun _ _ => throw (.host "no such function"))
    (fun ref name state => ((records ref).read name, state))
    (fun _ ref => (records ref).fields)
    (fun _ => 1)

omit [Epoch] in
theorem ofRecords_records (known : ObjectRef → Prop) (records : ObjectRef → Record) :
    (ofRecords records).Records known fun _ => records where
  readField _ _ _ _ := rfl
  readKeyed _ _ _ := rfl
  invoke _ _ _ _ := rfl

variable {host : Host σ} {records : σ → ObjectRef → Record}

/-- Records of given values are a mirror of the application. -/
theorem Records.mirrors (shows : host.Records Epoch.Object records)
    (uncalled : ∀ f, ¬ Epoch.Function f) {state : σ}
    (foreign : ∀ ref, Epoch.Object ref → (records state ref).Foreign) :
    host.Mirrors state (ofRecords (records state)) := by
  have reads (ref : ObjectRef) (known : Epoch.Object ref) (name : String) :
      Access.Mirrored (fun _ => False) state (host.readField ref name)
        ((ofRecords (records state)).readField ref name) := by
    rintro current _ rfl
    rw [shows.readField ref known]
    change Stateful.Agree _ _ ((records current ref).read name) ∧ _
    refine ⟨?_, rfl⟩
    cases found : (records current ref).read name with
    | error cause => exact .error cause
    | ok value => exact .ok (.of_foreign ((foreign ref known).read found))
  refine ⟨fun f called => (uncalled f called).elim, reads, ?_, ?_⟩
  · intro ref known key
    rw [shows.readKeyed ref known]
    change Access.Mirrored _ _ _ ((ofRecords (records state)).readField ref key.timeless.display)
    rw [Value.display_timeless]
    exact reads ref known key.display
  · intro ref known name P args _
    rw [shows.invoke ref known]
    refine (reads ref known name).bind fun found image seen => ?_
    obtain ⟨rfl, sound⟩ := seen
    cases found with
    | function f => exact (uncalled f sound).elim
    | _ => exact .throw _

end Host

/-- An application whose records are all that expressions meet. -/
def Application.ofRecords (host : Host σ) (records : σ → ObjectRef → Record)
    (shows : host.Records Epoch.Object records) (uncalled : ∀ f, ¬ Epoch.Function f) :
    Application σ (ObjectRef → Record) where
  host := host
  view := records
  mirror := Host.ofRecords
  Sane seen := ∀ ref, Epoch.Object ref → (seen ref).Foreign
  mirrors _ foreign := shows.mirrors uncalled foreign
  calm seen foreign := (Host.ofRecords_records _ seen).mirrors uncalled foreign

/-- What expressions may meet of an application: certain objects and functions, which answer from a
view of its state. -/
structure Outlook (σ ν : Type) where
  host : Host σ
  view : σ → ν
  mirror : ν → Host Unit
  known : ObjectRef → Prop
  calls : FunctionRef → Prop

namespace Outlook

/-- A view at an epoch at which the application answers from it, without seeing time. -/
structure Clear (outlook : Outlook σ ν) (seen : ν) : Prop where
  mirrors : ∀ state, outlook.view state = seen → outlook.host.Mirrors state (outlook.mirror seen)
  calm : (outlook.mirror seen).Mirrors () (outlook.mirror seen)

/-- The application, as expressions see it from an epoch on. -/
def application (outlook : Outlook σ ν) : Application σ ν where
  host := outlook.host
  view := outlook.view
  mirror := outlook.mirror
  Sane := outlook.Clear
  mirrors state clear := clear.mirrors state rfl
  calm _ clear := clear.calm

/-- The outlook on records, without anything that could be called. -/
def ofRecords (host : Host σ) (records : σ → ObjectRef → Record) (known : ObjectRef → Prop) :
    Outlook σ (ObjectRef → Record) where
  host := host
  view := records
  mirror := Host.ofRecords
  known := known
  calls _ := False

/-- Records of given values are clear. -/
theorem clear_ofRecords {host : Host σ} {records : σ → ObjectRef → Record}
    (shows : host.Records Epoch.Object records) (uncalled : ∀ f, ¬ Epoch.Function f)
    {known : ObjectRef → Prop} {seen : ObjectRef → Record}
    (foreign : ∀ ref, Epoch.Object ref → (seen ref).Foreign) :
    (ofRecords host records known).Clear seen where
  mirrors _ same := by
    subst same
    exact shows.mirrors uncalled foreign
  calm := (Host.ofRecords_records _ seen).mirrors uncalled foreign

end Outlook
end ChangeWatch
