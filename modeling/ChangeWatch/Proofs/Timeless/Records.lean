import ChangeWatch.Proofs.Timeless.Numbering
import ChangeWatch.Proofs.Timeless.Start
import ChangeWatch.Scenario.Run

/-!
The records of a scenario. Whatever its expressions are parsed from, a text or the cache, their slots
have owners, so that a detector of them has something to watch.
-/
namespace ChangeWatch

open List (Forall₂)

/-- An expression whose slots have owners. -/
def Source.Owned (source : Source) : Prop := ∃ owner, source.expr.Placed owner []

/-- A property of whatever is parsed. -/
def Source.Given (P : Source → Prop) : Prop :=
  ∀ reading text location source, parse reading text location = .ok source → P source

theorem Source.given_owned : Given Owned := fun _ _ _ _ parsed => parse_placed parsed

namespace ParseCache

/-- A cache of expressions with some property. -/
def Every (P : Source → Prop) (cache : ParseCache) : Prop := ∀ entry ∈ cache.entries, P entry.2

/-- A cache of expressions whose slots have owners. -/
abbrev Owned (cache : ParseCache) : Prop := cache.Every Source.Owned

theorem find?_mem {cache : ParseCache} {key : CacheKey} {shared : Shared}
    (found : cache.find? key = some shared) : ∃ entry ∈ cache.entries, entry.2 = shared.source := by
  have among : ∀ (position : Nat) (entries : List (CacheKey × Source)),
      find?.go key position entries = some shared → ∃ entry ∈ entries, entry.2 = shared.source := by
    intro position entries
    induction entries generalizing position with
    | nil => exact nofun
    | cons entry entries ih =>
      intro found
      simp only [find?.go] at found
      split at found
      · cases found
        exact ⟨entry, List.mem_cons_self, rfl⟩
      · obtain ⟨later, member, same⟩ := ih (position + 1) found
        exact ⟨later, List.mem_cons_of_mem entry member, same⟩
  exact among 0 cache.entries found

theorem Every.parse {P : Source → Prop} (given : Source.Given P) {cache : ParseCache}
    (every : cache.Every P) (key : CacheKey) :
    (cache.parse key).2.Every P ∧ ∀ shared, (cache.parse key).1 = .ok shared → P shared.source := by
  simp only [ParseCache.parse]
  cases found : cache.find? key with
  | some shared =>
    obtain ⟨entry, member, same⟩ := find?_mem found
    refine ⟨every, ?_⟩
    intro other parsed
    cases parsed
    exact same ▸ every entry member
  | none =>
    cases parsed : ChangeWatch.parse key.reading key.text key.location with
    | error cause => exact ⟨every, nofun⟩
    | ok source =>
      have holds := given _ _ _ source parsed
      constructor
      · exact List.forall_mem_append.mpr ⟨every, List.forall_mem_singleton.mpr holds⟩
      · intro other same
        cases same
        exact holds

end ParseCache

namespace Scenario

variable {P : Source → Prop} {cache : ParseCache}

theorem bindingRecord_every (given : Source.Given P) (every : cache.Every P) (index : Nat)
    (spec : BindingSpec) :
    (bindingRecord cache index spec).2.Every P ∧
      ∀ record, (bindingRecord cache index spec).1 = .ok record → P record.source := by
  simp only [bindingRecord]
  generalize ran : cache.parse _ = outcome
  obtain ⟨stays, fine⟩ := every.parse given _
  rw [ran] at stays fine
  refine ⟨stays, ?_⟩
  intro record built
  cases parsed : outcome.1 with
  | error cause =>
    rw [parsed] at built
    cases built
  | ok shared =>
    rw [parsed] at built
    cases built
    exact fine shared parsed

/-- All records have sources with the property. -/
theorem recordsFrom_every (given : Source.Given P) (every : cache.Every P) (index : Nat)
    {specs : List BindingSpec} {records : List BindingRecord}
    (read : recordsFrom cache index specs = .ok records) : ∀ record ∈ records, P record.source := by
  induction specs generalizing cache index records with
  | nil =>
    cases read
    exact nofun
  | cons spec specs ih =>
    obtain ⟨stays, fine⟩ := bindingRecord_every given every index spec
    simp only [recordsFrom] at read
    cases built : (bindingRecord cache index spec).1 with
    | error cause =>
      rw [built] at read
      cases read
    | ok record =>
      rw [built] at read
      cases others : recordsFrom (bindingRecord cache index spec).2 (index + 1) specs with
      | error cause =>
        simp only [others] at read
        cases read
      | ok rest =>
        simp only [others] at read
        cases read
        exact List.forall_mem_cons.mpr ⟨fine record built, ih stays (index + 1) others⟩

theorem recordsFrom_owned (owned : cache.Owned) (index : Nat) {specs : List BindingSpec}
    {records : List BindingRecord} (read : recordsFrom cache index specs = .ok records) :
    ∀ record ∈ records, record.source.Owned :=
  recordsFrom_every Source.given_owned owned index read

end Scenario

/-- The expressions of records, as a detector made from them watches them at first. -/
theorem exists_watches [Epoch.Start] {records : List BindingRecord}
    (owned : ∀ record ∈ records, record.source.Owned) (detector start : Nat) :
    ∃ watches, ∀ strategy, Forall₂ Watch.Holds watches
      ((records.zipIdx start).map fun (record, index) =>
        Binding.ofRecord strategy (.part index (.detector detector)) record) := by
  induction records generalizing start with
  | nil => exact ⟨[], fun _ => .nil⟩
  | cons record records ih =>
    obtain ⟨⟨owner, placed⟩, others⟩ := List.forall_mem_cons.mp owned
    obtain ⟨watches, holds⟩ := ih others (start + 1)
    let watch : Watch :=
      { detector, index := start, strategy := .interpreted, source := record.source, owner, placed }
    refine ⟨watch :: watches, fun strategy => .cons ?_ (holds strategy)⟩
    exact watch.holds_ofRecord strategy record.binding record.group

end ChangeWatch
