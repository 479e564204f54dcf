import ChangeWatch.Proofs.Timeless.Lockstep
import ChangeWatch.Proofs.Timeless.Start
import ChangeWatch.Scenario.Run

/-!
The application of a scenario. It holds one record, whose values come from documents, and logs what is
reported. Neither the record nor the log tells the time of a value.
-/
namespace ChangeWatch

variable [Epoch.Uncalled]

namespace Record

theorem ofJson_foreign {place : Place} (hosted : place.isHost = true) (typeName : String)
    (fields : List (String × Json)) : (ofJson typeName place fields).Foreign :=
  fun entry member =>
    Value.ofFields_foreign hosted 0 fields entry (Entries.mem_of_mem_ofList member)

variable {record : Record}

theorem Foreign.set (foreign : record.Foreign) (name : String) {value : Value}
    (made : value.Foreign) : (record.set name value).Foreign := by
  intro entry member
  rcases Entries.mem_of_mem_insert member with rfl | old
  · exact made
  · exact foreign entry old

theorem Foreign.erase (foreign : record.Foreign) (name : String) : (record.erase name).Foreign :=
  fun entry member => foreign entry ((Entries.erase_sublist _ _).subset member)

end Record

namespace Scenario

theorem applyStep_foreign {place : Place} (hosted : place.isHost = true) (step : Step)
    {record : Record} (foreign : record.Foreign) : (applyStep place step record).Foreign := by
  have written : ∀ (fields : List (String × Value)) (record : Record),
      (∀ entry ∈ fields, entry.2.Foreign) → record.Foreign →
      (fields.foldl (fun record field => record.set field.1 field.2) record).Foreign := by
    intro fields
    induction fields with
    | nil => exact fun _ _ foreign => foreign
    | cons entry fields ih =>
      intro record made foreign
      have ⟨first, others⟩ := List.forall_mem_cons.mp made
      exact ih _ others (foreign.set entry.1 first)
  have removed : ∀ (names : List String) (record : Record), record.Foreign →
      (names.foldl Record.erase record).Foreign := by
    intro names
    induction names with
    | nil => exact fun _ foreign => foreign
    | cons name names ih => exact fun record foreign => ih _ (foreign.erase name)
  exact removed step.remove _ (written _ record (Value.ofFields_foreign hosted 0 step.set) foreign)

/-- What the expressions of a scenario see besides its record. -/
def scope (scenario : Scenario) : Scope where
  context := .object { id := 0, typeName := scenario.contextType }
  locals :=
    if scenario.locals.isEmpty then []
    else Locals.child (Value.ofFields (.host 1) 0 scenario.locals) []

theorem scope_locals_foreign (scenario : Scenario) (name : String) (value : Value)
    (found : scenario.scope.locals.resolve? name = some value) : value.Foreign := by
  simp only [scope] at found
  split at found
  · cases found
  · simp only [Locals.child, Locals.resolve?] at found
    split at found
    · rename_i bound
      cases found
      exact Value.ofFields_foreign rfl 0 scenario.locals _
        (Entries.mem_of_mem_ofList (Entries.mem_of_get? bound))
    · cases found

theorem scope_foreign (scenario : Scenario)
    (known : Epoch.Object { id := 0, typeName := scenario.contextType }) :
    scenario.scope.Foreign where
  context := known
  locals := scenario.scope_locals_foreign

omit [Epoch.Uncalled] in
theorem host_records (known : ObjectRef → Prop) :
    host.Records known fun watched _ => watched.record where
  readField ref _ name watched := by
    simp only [host, Host.ofFields, Record.read]
    have seen : (get : Access Watched Watched) watched = (.ok watched, watched) := rfl
    rw [Stateful.bind_of_ok seen]
    cases watched.record.get? name <;> rfl
  readKeyed _ _ _ := rfl
  invoke _ _ _ _ := rfl

/-- The application of a scenario, of which expressions see the record. -/
def application : Application Watched (ObjectRef → Record) :=
  .ofRecords host (fun watched _ => watched.record) (host_records _) Epoch.Uncalled.uncalled

theorem application_sane {watched : Watched} (foreign : watched.record.Foreign) :
    application.Sane (application.view watched) :=
  fun _ _ => foreign

noncomputable def Watched.timeless (watched : Watched) : Watched :=
  { watched with log := watched.log.map Notification.timeless }

/-- States of a scenario with the same record and the same log, but for the time. -/
def Alike (watched watched' : Watched) : Prop := watched.timeless = watched'.timeless

theorem Alike.record {watched watched' : Watched} (alike : Alike watched watched') :
    watched.record = watched'.record :=
  (congrArg Watched.record alike :)

theorem Alike.log {watched watched' : Watched} (alike : Alike watched watched') :
    watched.log.map Notification.timeless = watched'.log.map Notification.timeless :=
  (congrArg Watched.log alike :)

/-- The log does not see time. -/
theorem logging_blind : Dispatcher.Blind logging application Alike where
  views watched other alike := by
    change (fun _ => other.record) = fun _ => watched.record
    rw [alike.record]
  keeps _ _ _ := rfl
  results _ _ _ _ _ _ _ := rfl
  states group changes changes' watched watched' images alike := by
    simp only [Alike, logging, Watched.timeless, List.map_append, alike.record, alike.log,
      List.map_cons, List.map_nil, Notification.timeless, images]

end Scenario
end ChangeWatch
