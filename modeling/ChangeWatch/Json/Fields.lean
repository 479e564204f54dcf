import ChangeWatch.Json.Draft

/-!
Reads documents with a fixed set of named fields. The fields may come by name, each at most once, or
as a list in the order of their declaration, of which a tail may be missing.
-/
namespace ChangeWatch.Json

/-- Whether fields that are not declared are refused or skipped. -/
inductive Strangers where
  | refused
  | skipped
deriving DecidableEq, Repr

namespace Draft

/-- Fields by name, or nothing if a name holds half of a surrogate pair. -/
def named? : List (Option String × Draft) → Option (List (String × Draft))
  | [] => some []
  | (name, value) :: fields => do
    let name ← name
    let others ← named? fields
    return (name, value) :: others

/-- The declared fields that a draft has. -/
def declared? (strangers : Strangers) (names : List String) :
    Draft → Option (List (String × Draft))
  | array items => if items.length ≤ names.length then some (names.zip items) else none
  | object fields => do
    let fields ← named? fields
    let known := fields.filter fun field => names.contains field.1
    if (known.map Prod.fst).eraseDups.length ≠ known.length then none
    else if strangers = .refused ∧ known.length ≠ fields.length then none
    else return known
  | _ => none

def bool? : Draft → Option Bool
  | bool b => some b
  | _ => none

def string? : Draft → Option String
  | string s => s
  | _ => none

def array? : Draft → Option (List Draft)
  | array items => some items
  | _ => none

/-- The fields of an object by name, with containers at most the given number of levels deep. -/
def object? (depth : Nat) (draft : Draft) : Option (List (String × Json)) :=
  match draft with
  | object _ =>
    match draft.toJson? depth with
    | some (.object fields) => some fields
    | _ => none
  | _ => none

/-- A text, or null for none. -/
def optionalString? : Draft → Option (Option String)
  | null => some none
  | draft => draft.string?.map some

end Draft

/-- A field that may be missing. -/
def field (fields : List (String × Draft)) (name : String) (read : Draft → Option α) (missing : α) :
    Option α :=
  match Entries.get? fields name with
  | some draft => read draft
  | none => some missing

/-- A field that must not be missing. -/
def required (fields : List (String × Draft)) (name : String) (read : Draft → Option α) :
    Option α :=
  (Entries.get? fields name).bind read

end ChangeWatch.Json
