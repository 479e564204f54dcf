import ChangeWatch.Detector.Check
import ChangeWatch.Proofs.Stateful

/-!
Handing changes over. A buffer without a group has nothing to hand over, and any other one calls its
dispatcher once. A dispatcher that sees only so much of a change answers alike to changes that look the
same to it, so buffers that look the same are handed over alike.
-/
namespace ChangeWatch

namespace Buffer

variable {buffer : Buffer} {dispatcher : Dispatcher σ} {state : σ}

theorem flush_of_none (empty : buffer.group = none) :
    buffer.flush dispatcher state = (.ok (), state) := by
  simp only [flush, empty]
  rfl

theorem flush_of_some {group : Label} (grouped : buffer.group = some group) :
    buffer.flush dispatcher state =
      ((dispatcher group buffer.records state).1.mapError (.dispatch group),
        (dispatcher group buffer.records state).2) := by
  simp only [flush, grouped, Bind.bind, StateT.bind]
  rcases dispatcher group buffer.records state with ⟨result, after⟩
  cases result <;> rfl

theorem flushFor_eq (buffer : Buffer) (dispatcher : Dispatcher σ) (next : Label) (state : σ) :
    buffer.flushFor dispatcher next state =
      if buffer.group.all (· = next) then (.ok buffer, state)
      else ((buffer.flush dispatcher state).1.map fun _ => {}, (buffer.flush dispatcher state).2) := by
  unfold flushFor
  cases named : buffer.group with
  | none => rfl
  | some group =>
    by_cases same : group = next
    · simp only [same, if_true, Option.all_some, decide_true]
      rfl
    · simp only [same, if_false, Option.all_some, decide_false, Bind.bind, StateT.bind,
        Bool.false_eq_true]
      rcases buffer.flush dispatcher state with ⟨result, after⟩
      cases result <;> rfl

/-- Handing over keeps what calls of the dispatcher keep. -/
theorem flush_stays {K : σ → Prop}
    (calls : ∀ group changes state, K state → K (dispatcher group changes state).2)
    (holds : K state) : K (buffer.flush dispatcher state).2 := by
  cases grouped : buffer.group with
  | none =>
    rw [flush_of_none grouped]
    exact holds
  | some group =>
    rw [flush_of_some grouped]
    exact calls group buffer.records state holds

theorem flushFor_stays {K : σ → Prop}
    (calls : ∀ group changes state, K state → K (dispatcher group changes state).2)
    (holds : K state) (next : Label) : K (buffer.flushFor dispatcher next state).2 := by
  rw [flushFor_eq]
  split
  · exact holds
  · exact flush_stays calls holds

end Buffer

/-- A dispatcher that sees a part of every change and does not tell apart states that are alike. -/
structure Dispatcher.Heeds (dispatcher : Dispatcher σ) (look : ChangeRecord → χ)
    (Alike : σ → σ → Prop) : Prop where
  results : ∀ group changes changes' state state', changes.map look = changes'.map look →
    Alike state state' → (dispatcher group changes state).1 = (dispatcher group changes' state').1
  states : ∀ group changes changes' state state', changes.map look = changes'.map look →
    Alike state state' → Alike (dispatcher group changes state).2 (dispatcher group changes' state').2

namespace Buffer

/-- Buffers whose changes look the same. -/
structure Match (look : ChangeRecord → χ) (buffer other : Buffer) : Prop where
  group : buffer.group = other.group
  records : buffer.records.map look = other.records.map look

variable {look : ChangeRecord → χ} {Alike : σ → σ → Prop} {dispatcher : Dispatcher σ}
  {buffer other : Buffer} {state state' : σ}

theorem Match.refl (look : ChangeRecord → χ) (buffer : Buffer) : Match look buffer buffer :=
  ⟨rfl, rfl⟩

theorem Match.push (same : Match look buffer other) (group : Label) {record record' : ChangeRecord}
    (records : look record = look record') :
    Match look (buffer.push group record) (other.push group record') where
  group := by simp only [Buffer.push, same.group]
  records := by simp only [Buffer.push, List.map_append, same.records, List.map_cons, records]

theorem flush_match (heeds : dispatcher.Heeds look Alike) (same : Match look buffer other)
    (alike : Alike state state') :
    (buffer.flush dispatcher state).1 = (other.flush dispatcher state').1 ∧
      Alike (buffer.flush dispatcher state).2 (other.flush dispatcher state').2 := by
  obtain ⟨groups, records⟩ := same
  cases grouped : buffer.group with
  | none =>
    rw [flush_of_none grouped, flush_of_none (groups ▸ grouped)]
    exact ⟨rfl, alike⟩
  | some group =>
    rw [flush_of_some grouped, flush_of_some (groups ▸ grouped),
      heeds.results group buffer.records other.records state state' records alike]
    exact ⟨rfl, heeds.states group _ _ state state' records alike⟩

/-- Before the next expression is evaluated, the same changes are handed over. -/
theorem flushFor_match (heeds : dispatcher.Heeds look Alike) (same : Match look buffer other)
    (alike : Alike state state') (next : Label) :
    Stateful.Agree (Match look)
        (buffer.flushFor dispatcher next state).1 (other.flushFor dispatcher next state').1 ∧
      Alike (buffer.flushFor dispatcher next state).2 (other.flushFor dispatcher next state').2 := by
  rw [flushFor_eq, flushFor_eq, same.group]
  split
  · exact ⟨.ok same, alike⟩
  · obtain ⟨results, states⟩ := flush_match heeds same alike
    rw [results]
    refine ⟨?_, states⟩
    cases (other.flush dispatcher state').1 with
    | error error => exact .error error
    | ok _ => exact .ok (.refl look {})

end Buffer
end ChangeWatch
