/-!
Named entries kept in order of their names: the fields of records and the entries of maps. Every
name occurs at most once, and names are ordered by their characters.
-/
namespace ChangeWatch

abbrev Entries (α : Type) := List (String × α)

namespace Entries

/-- Names strictly increase. -/
def Sorted (entries : Entries α) : Prop := entries.Pairwise fun a b => a.1 < b.1

def get? (entries : Entries α) (name : String) : Option α :=
  (entries.find? fun entry => entry.1 == name).map Prod.snd

/-- Binds a name, in place of any earlier binding. -/
def insert (name : String) (value : α) : Entries α → Entries α
  | [] => [(name, value)]
  | (key, old) :: rest =>
    if name < key then (name, value) :: (key, old) :: rest
    else if key = name then (name, value) :: rest
    else (key, old) :: insert name value rest

def erase (name : String) : Entries α → Entries α
  | [] => []
  | (key, old) :: rest => if key = name then rest else (key, old) :: erase name rest

/-- Bindings in order of writing; the last binding of a name counts. -/
def ofList (bindings : List (String × α)) : Entries α :=
  bindings.foldl (fun entries binding => insert binding.1 binding.2 entries) []

def names (entries : Entries α) : List String := entries.map Prod.fst

end Entries
end ChangeWatch
