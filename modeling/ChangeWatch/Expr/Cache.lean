import ChangeWatch.Expr.Interpolation

/-!
Parsed expressions kept for reuse. An expression is known again by its reading, its text and its
location; a text that does not parse leaves nothing behind.
-/
namespace ChangeWatch

structure CacheKey where
  reading : Reading
  text : String
  location : String
deriving DecidableEq, Repr

/-- The expressions parsed so far, the latest last. -/
structure ParseCache where
  entries : List (CacheKey × Source) := []

namespace ParseCache

def size (cache : ParseCache) : Nat := cache.entries.length

/-- A source and its position in the cache, by which one shared source is known from another. -/
structure Shared where
  position : Nat
  source : Source

def find? (cache : ParseCache) (key : CacheKey) : Option Shared :=
  go 0 cache.entries
where
  go (position : Nat) : List (CacheKey × Source) → Option Shared
    | [] => none
    | (known, source) :: rest =>
      if known = key then some { position, source } else go (position + 1) rest

/-- The shared source for a text, parsed now unless it has been before. -/
def parse (cache : ParseCache) (key : CacheKey) : Except ParseError Shared × ParseCache :=
  match cache.find? key with
  | some shared => (.ok shared, cache)
  | none =>
    match ChangeWatch.parse key.reading key.text key.location with
    | .ok source =>
      (.ok { position := cache.size, source }, { entries := cache.entries ++ [(key, source)] })
    | .error error => (.error error, cache)

end ParseCache
end ChangeWatch
