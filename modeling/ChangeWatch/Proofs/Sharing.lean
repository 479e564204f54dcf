import ChangeWatch.Expr.Cache
import Mathlib.Data.Finset.Card

/-!
Parsing with a cache gives what parsing gives, in any number of calls. An expression that is given twice is
shared exactly where reading, text and location are the same, and the cache has one expression for each of
the different keys that could be parsed.
-/
namespace ChangeWatch

/-- What a key gives without a cache. -/
def CacheKey.parse (key : CacheKey) : Except ParseError Source :=
  ChangeWatch.parse key.reading key.text key.location

namespace ParseCache

/-- Calls one after the other on one cache: their answers, and the cache behind them. -/
def serve (cache : ParseCache) : List CacheKey → List (Except ParseError Shared) × ParseCache
  | [] => ([], cache)
  | key :: keys =>
    let (answer, cache) := cache.parse key
    let (answers, cache) := serve cache keys
    (answer :: answers, cache)

variable {cache : ParseCache} {key : CacheKey} {shared : Shared} {seen : List CacheKey}

def keys (cache : ParseCache) : List CacheKey := cache.entries.map Prod.fst

theorem entry_of_find? (found : cache.find? key = some shared) :
    cache.entries[shared.position]? = some (key, shared.source) := by
  have behind (entries : List (CacheKey × Source)) : ∀ position, find?.go key position entries = some shared →
      ∃ index, shared.position = position + index ∧ entries[index]? = some (key, shared.source) := by
    induction entries with
    | nil => exact fun _ => nofun
    | cons entry entries ih =>
      intro position found
      rw [find?.go] at found
      split at found
      · rename_i same
        cases found
        exact ⟨0, rfl, by rw [← same]; rfl⟩
      · obtain ⟨index, place, known⟩ := ih (position + 1) found
        exact ⟨index + 1, by omega, known⟩
  obtain ⟨index, place, known⟩ := behind cache.entries 0 found
  rwa [place, Nat.zero_add]

theorem find?_eq_none (missing : cache.find? key = none) : key ∉ cache.keys := by
  have behind (entries : List (CacheKey × Source)) : ∀ position, find?.go key position entries = none →
      key ∉ entries.map Prod.fst := by
    induction entries with
    | nil => exact fun _ _ => List.not_mem_nil
    | cons entry entries ih =>
      intro position missing
      rw [find?.go] at missing
      split at missing
      · cases missing
      · rename_i other
        rw [List.map_cons, List.mem_cons, not_or]
        exact ⟨fun same => other same.symm, ih (position + 1) missing⟩
  exact behind cache.entries 0 missing

/-- What a cache has in it when some keys have been parsed. -/
structure Keeps (seen : List CacheKey) (cache : ParseCache) : Prop where
  distinct : cache.keys.Nodup
  parsed : ∀ entry ∈ cache.entries, entry.1.parse = .ok entry.2
  known : ∀ key, key ∈ cache.keys ↔ key ∈ seen ∧ key.parse.isOk = true

theorem Keeps.empty : Keeps [] {} where
  distinct := .nil
  parsed _ := nofun
  known key := by simp [keys]

/-- A call that finds its key, or that fails, leaves the cache as it is. -/
theorem Keeps.again (keeps : Keeps seen cache) (there : key.parse.isOk = true → key ∈ cache.keys) :
    Keeps (seen ++ [key]) cache where
  distinct := keeps.distinct
  parsed := keeps.parsed
  known other := by
    rw [keeps.known, List.mem_append, List.mem_singleton]
    constructor
    · rintro ⟨earlier, ok⟩
      exact ⟨.inl earlier, ok⟩
    · rintro ⟨earlier | rfl, ok⟩
      · exact ⟨earlier, ok⟩
      · exact (keeps.known other).mp (there ok)

/-- A call that succeeds with a new key has its expression behind the others. -/
theorem Keeps.insert (keeps : Keeps seen cache) {source : Source} (missing : key ∉ cache.keys)
    (parsed : key.parse = .ok source) :
    Keeps (seen ++ [key]) { entries := cache.entries ++ [(key, source)] } where
  distinct := by
    rw [keys, List.map_append]
    exact List.nodup_append_comm.mp (List.nodup_cons.mpr ⟨missing, keeps.distinct⟩)
  parsed := List.forall_mem_append.mpr ⟨keeps.parsed, List.forall_mem_singleton.mpr parsed⟩
  known other := by
    rw [keys, List.map_append, List.mem_append, ← keys, keeps.known, List.mem_append, List.map_singleton,
      List.mem_singleton]
    constructor
    · rintro (⟨earlier, ok⟩ | rfl)
      · exact ⟨.inl earlier, ok⟩
      · exact ⟨.inr rfl, by rw [parsed]; rfl⟩
    · rintro ⟨earlier | rfl, ok⟩
      · exact .inl ⟨earlier, ok⟩
      · exact .inr rfl

/-- What one call does: it answers as parsing does, and all that is known stays where it is. An expression
that is given is in the cache from then on. -/
structure Served (seen : List CacheKey) (cache : ParseCache) (key : CacheKey)
    (answer : Except ParseError Shared) (after : ParseCache) : Prop where
  answer_eq : answer.map Shared.source = key.parse
  keeps : Keeps (seen ++ [key]) after
  grown : cache.entries <+: after.entries
  entry : ∀ shared, answer = .ok shared → after.entries[shared.position]? = some (key, shared.source)

theorem Keeps.served (keeps : Keeps seen cache) (key : CacheKey) :
    Served seen cache key (cache.parse key).1 (cache.parse key).2 := by
  unfold ParseCache.parse
  cases found : cache.find? key with
  | some shared =>
    have here := entry_of_find? found
    have member := List.mem_of_getElem? here
    constructor
    case answer_eq => exact (keeps.parsed _ member).symm
    case keeps => exact keeps.again fun _ => List.mem_map_of_mem member
    case grown => exact List.prefix_refl _
    case entry =>
      rintro _ ⟨⟩
      exact here
  | none =>
    cases parsed : key.parse with
    | error error =>
      have refused : ChangeWatch.parse key.reading key.text key.location = .error error := parsed
      simp only [refused]
      refine ⟨parsed.symm, keeps.again fun ok => ?_, List.prefix_refl _, nofun⟩
      rw [parsed] at ok
      cases ok
    | ok source =>
      have accepted : ChangeWatch.parse key.reading key.text key.location = .ok source := parsed
      simp only [accepted]
      refine ⟨parsed.symm, keeps.insert (find?_eq_none found) parsed, List.prefix_append _ _, ?_⟩
      rintro _ ⟨⟩
      exact List.getElem?_concat_length

/-- What any number of calls do. -/
theorem Keeps.serve (keys : List CacheKey) (keeps : Keeps seen cache) :
    (serve cache keys).1.map (Except.map Shared.source) = keys.map CacheKey.parse ∧
      Keeps (seen ++ keys) (serve cache keys).2 ∧ cache.entries <+: (serve cache keys).2.entries ∧
      ∀ (index : Nat) key shared,
        keys[index]? = some key → (serve cache keys).1[index]? = some (.ok shared) →
        (serve cache keys).2.entries[shared.position]? = some (key, shared.source) := by
  induction keys generalizing seen cache with
  | nil => exact ⟨rfl, by rwa [List.append_nil], List.prefix_refl _, nofun⟩
  | cons first keys ih =>
    have step := keeps.served first
    obtain ⟨answers, kept, grown, entries⟩ := ih step.keeps
    rw [List.append_assoc, List.singleton_append] at kept
    refine ⟨?_, kept, step.grown.trans grown, fun index key shared asked answered => ?_⟩
    · rw [ParseCache.serve, List.map_cons, List.map_cons, answers, step.answer_eq]
    · cases index with
      | zero =>
        rw [ParseCache.serve, List.getElem?_cons_zero, Option.some.injEq] at answered
        obtain rfl := Option.some.inj asked
        have here := step.entry shared answered
        obtain ⟨within, same⟩ := List.getElem?_eq_some_iff.mp here
        exact (List.prefix_iff_getElem?.mp grown shared.position within).trans (congrArg some same)
      | succ index => exact entries index key shared asked answered

/-- A cache is not seen but in what is shared: every call answers as parsing does, two calls that succeed
give the same expression exactly when all that they are asked for is the same, and there are as many
expressions in the cache as different keys have been parsed. -/
theorem serve_transparent (keys : List CacheKey) :
    (serve {} keys).1.map (Except.map Shared.source) =
        keys.map (fun key => ChangeWatch.parse key.reading key.text key.location) ∧
      (∀ (first last : Nat) key other shared shared',
        keys[first]? = some key → (serve {} keys).1[first]? = some (.ok shared) →
        keys[last]? = some other → (serve {} keys).1[last]? = some (.ok shared') →
        (shared.position = shared'.position ↔
          key.reading = other.reading ∧ key.text = other.text ∧ key.location = other.location)) ∧
      (serve {} keys).2.size = (keys.filter fun key =>
        (ChangeWatch.parse key.reading key.text key.location).isOk).toFinset.card := by
  obtain ⟨answers, keeps, -, entries⟩ := Keeps.empty.serve keys
  rw [List.nil_append] at keeps
  refine ⟨answers, fun first last key other shared shared' asked answered asked' answered' => ?_, ?_⟩
  · have here := entries first key shared asked answered
    have there := entries last other shared' asked' answered'
    constructor
    · intro same
      rw [same, there, Option.some.injEq, Prod.mk.injEq] at here
      obtain ⟨rfl, -⟩ := here
      exact ⟨rfl, rfl, rfl⟩
    · rintro ⟨reading, text, location⟩
      obtain rfl : key = other := by
        cases key
        cases other
        cases reading
        cases text
        cases location
        rfl
      have place := congrArg (Option.map Prod.fst) here
      have place' := congrArg (Option.map Prod.fst) there
      rw [← List.getElem?_map] at place place'
      obtain ⟨within, -⟩ := List.getElem?_eq_some_iff.mp place
      exact (List.getElem?_inj within keeps.distinct).mp (place.trans place'.symm)
  · have same : (serve {} keys).2.keys.toFinset = (keys.filter fun key => key.parse.isOk).toFinset := by
      ext key
      rw [List.mem_toFinset, List.mem_toFinset, List.mem_filter]
      exact keeps.known key
    have count := List.toFinset_card_of_nodup keeps.distinct
    rw [same, ParseCache.keys, List.length_map] at count
    exact count.symm

namespace Samples

/-- A name, the same text around expressions, a text that is no expression, and the name again. -/
def asked : List CacheKey :=
  [{ reading := .binding, text := "a", location := "view" },
    { reading := .interpolation, text := "a", location := "view" },
    { reading := .binding, text := "(", location := "view" },
    { reading := .binding, text := "a", location := "view" }]

def name : Source := { expr := .name "a", text := "a", location := "view", slots := 0 }

end Samples

open Samples in
theorem serve_transparent_name : ∃ shared shared' : Shared,
    (serve {} asked).1[0]? = some (.ok shared) ∧ (serve {} asked).1[3]? = some (.ok shared') ∧
      shared.position = shared'.position ∧ (serve {} asked).2.size = 2 := by
  have first : (serve {} asked).1[0]? = some (.ok { position := 0, source := name }) := by rfl
  have last : (serve {} asked).1[3]? = some (.ok { position := 0, source := name }) := by rfl
  obtain ⟨-, shared, count⟩ := serve_transparent asked
  refine ⟨_, _, first, last, ?_, count.trans (by decide +kernel)⟩
  exact (shared 0 3 _ _ _ _ rfl first rfl last).mpr ⟨rfl, rfl, rfl⟩

end ParseCache
end ChangeWatch
