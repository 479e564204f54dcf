import ChangeWatch.Value.Json

/-!
Records: the plain objects of an application, a type name and fields that can be set and removed.
-/
namespace ChangeWatch

structure Record where
  typeName : String
  fields : Entries Value := []
deriving Inhabited

namespace Record

/-- A record with the fields of a document, made at the given place. -/
def ofJson (typeName : String) (place : Place) (fields : List (String × Json)) : Record :=
  { typeName, fields := Entries.ofList (Value.ofFields place 0 fields) }

def get? (record : Record) (name : String) : Option Value := Entries.get? record.fields name

def set (record : Record) (name : String) (value : Value) : Record :=
  { record with fields := Entries.insert name value record.fields }

def erase (record : Record) (name : String) : Record :=
  { record with fields := Entries.erase name record.fields }

def size (record : Record) : Nat := record.fields.length

end Record
end ChangeWatch
