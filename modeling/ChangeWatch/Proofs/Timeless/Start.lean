import ChangeWatch.Proofs.Timeless.Application
import ChangeWatch.Proofs.Timeless.Watching

/-!
The epoch before all evaluations. Everything that the application makes is there, and everything that
watched expressions make is yet to be made. The values of documents are made by the application.
-/
namespace ChangeWatch

namespace Epoch

/-- The epoch at which nothing has been evaluated. -/
class Start extends Epoch where
  yet : ∀ place, Yet place ↔ place.isHost = false
  first : number = 0

/-- The start of expressions that meet no functions. -/
class Uncalled extends Start where
  uncalled : ∀ f, ¬ Function f

theorem isHost_back (number : Nat) (made : Nat → Nat) (place : Place) :
    (place.back number made).isHost = place.isHost := by
  rw [Place.back, Place.isHost_within]
  induction place with
  | host | detector => rfl
  | part _ whole ih => exact ih

/-- The start of expressions that meet certain objects and functions. -/
@[reducible] def start (known : ObjectRef → Prop) (calls : FunctionRef → Prop) : Start where
  Yet place := place.isHost = false
  number := 0
  made _ := 0
  Object := known
  Function := calls
  back place yet := (isHost_back 0 _ place).trans yet
  yet _ := Iff.rfl
  first := rfl

@[reducible] def uncalled (known : ObjectRef → Prop) : Uncalled :=
  { start known fun _ => False with uncalled := fun _ => id }

end Epoch

variable [Epoch.Start]

theorem Place.given_of_isHost {place : Place} (hosted : place.isHost = true) : place.Given := by
  intro yet
  rw [(Epoch.Start.yet place).mp yet] at hosted
  cases hosted

namespace Place

variable (detector index : Nat)

theorem yet_within (path : List Nat) : Epoch.Yet ((ofBinding detector index).within path) := by
  rw [Epoch.Start.yet, isHost_within]
  rfl

theorem yet_evaluation (number : Nat) (path : List Nat) :
    Epoch.Yet (((ofBinding detector index).evaluation number).within path) := by
  rw [evaluation_within]
  exact yet_within detector index _

theorem fresh_slot (slot made transforms : Nat) :
    ((ofBinding detector index).slot slot).Fresh made transforms := by
  intro inner
  rw [show (part transforms (part made ((ofBinding detector index).slot slot))).within inner =
    (ofBinding detector index).within (inner ++ [transforms, made, slot, 1]) from
    ((ofBinding detector index).within_append inner [transforms, made, slot, 1]).symm]
  exact yet_within detector index _

end Place

/-- A new expression, with owners for its slots. -/
theorem Watch.holds_ofRecord (watch : Watch) (strategy : Strategy) (binding group : Label) :
    watch.Holds (.ofRecord strategy watch.place { source := watch.source, binding, group }) where
  place := rfl
  evaluator := ⟨strategy, rfl, .inr Epoch.Start.first⟩
  origin inner := by
    have timed := Place.timeless_evaluation (Place.yet_evaluation watch.detector watch.index 0 inner)
    rwa [Epoch.Start.first] at timed
  later number _ := Place.yet_evaluation watch.detector watch.index number
  keeps index slot found := by
    obtain rfl := List.eq_of_mem_replicate (List.mem_of_getElem? found)
    exact ⟨fun _ impossible => (nomatch impossible), trivial,
      fun made _ transforms => Place.fresh_slot watch.detector watch.index index made transforms⟩

namespace Value

theorem ofNumber_foreign (number : Json.Number) : (ofNumber number).Foreign := by
  cases number with
  | natural n => exact ofNat_foreign n.toNat
  | _ => trivial

mutual
/-- The values of documents are made by the host. -/
theorem ofJson_foreign {place : Place} (hosted : place.isHost = true) :
    (json : Json) → (ofJson place json).Foreign
  | .null | .bool _ | .string _ => trivial
  | .number n => ofNumber_foreign n
  | .array items =>
    ⟨.inl (Place.given_of_isHost hosted), soundItems_iff.mpr (ofItems_foreign hosted 0 items)⟩
  | .object fields =>
    ⟨.inl (Place.given_of_isHost hosted), (Entries.ofList_sorted _).distinct,
      soundEntries_iff.mpr fun entry member =>
        ofFields_foreign hosted 0 fields entry (Entries.mem_of_mem_ofList member)⟩

theorem ofItems_foreign {place : Place} (hosted : place.isHost = true) (index : Nat) :
    (items : List Json) → ∀ item ∈ ofItems place index items, item.Foreign
  | [] => fun _ impossible => nomatch impossible
  | item :: items => List.forall_mem_cons.mpr
    ⟨@ofJson_foreign (.part index place) hosted item, ofItems_foreign hosted (index + 1) items⟩

theorem ofFields_foreign {place : Place} (hosted : place.isHost = true) (index : Nat) :
    (fields : List (String × Json)) → ∀ entry ∈ ofFields place index fields, entry.2.Foreign
  | [] => fun _ impossible => nomatch impossible
  | (_, value) :: fields => List.forall_mem_cons.mpr
    ⟨@ofJson_foreign (.part index place) hosted value, ofFields_foreign hosted (index + 1) fields⟩
end

end Value
end ChangeWatch
