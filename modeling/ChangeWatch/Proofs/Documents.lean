import ChangeWatch.Expr.Evaluate
import ChangeWatch.Value.Json
import ChangeWatch.Proofs.Copies
import ChangeWatch.Proofs.Entries
import ChangeWatch.Proofs.Integers.Exactness

/-!
Values and documents convert back and forth without loss. A value comes back as a copy of itself exactly if it
is plain data, and a document comes back as it was exactly if its integers fit 64 bits.
-/
namespace ChangeWatch

namespace Json

/-- A number as documents keep it: nothing from zero up is kept as a negative one, and floats are finite. -/
def Number.IsKept : Number → Prop
  | natural _ => True
  | negative n => n < 0
  | real x => x.isFinite = true

/-- Some word has the value of the number if it is an integer. -/
def Number.IntegerFits : Number → Prop
  | natural n => Fits n.toNat
  | negative _ | real _ => True

mutual
/-- A document as it is kept, with the fields of all objects in order. -/
def IsKept : Json → Prop
  | number n => n.IsKept
  | array items => ItemsAreKept items
  | object fields => Entries.Sorted fields ∧ FieldsAreKept fields
  | _ => True

def ItemsAreKept : List Json → Prop
  | [] => True
  | item :: items => item.IsKept ∧ ItemsAreKept items

def FieldsAreKept : List (String × Json) → Prop
  | [] => True
  | (_, value) :: fields => value.IsKept ∧ FieldsAreKept fields
end

mutual
/-- No integer in the document is too large for a word. -/
def IntegersFit : Json → Prop
  | number n => n.IntegerFits
  | array items => ItemsFit items
  | object fields => FieldsFit fields
  | _ => True

def ItemsFit : List Json → Prop
  | [] => True
  | item :: items => item.IntegersFit ∧ ItemsFit items

def FieldsFit : List (String × Json) → Prop
  | [] => True
  | (_, value) :: fields => value.IntegersFit ∧ FieldsFit fields
end

end Json

namespace Value

mutual
/-- The entries of all maps are in order. -/
def IsOrdered : Value → Prop
  | list _ items => ItemsAreOrdered items
  | map _ entries => Entries.Sorted entries ∧ EntriesAreOrdered entries
  | _ => True

def ItemsAreOrdered : List Value → Prop
  | [] => True
  | item :: items => item.IsOrdered ∧ ItemsAreOrdered items

def EntriesAreOrdered : List (String × Value) → Prop
  | [] => True
  | (_, value) :: entries => value.IsOrdered ∧ EntriesAreOrdered entries
end

mutual
/-- The value is made of what documents have: there is no host object or function in it, and no float that is
not finite. -/
def IsData : Value → Prop
  | float x => x.isFinite = true
  | list _ items => ItemsAreData items
  | map _ entries => EntriesAreData entries
  | object _ | function _ => False
  | _ => True

def ItemsAreData : List Value → Prop
  | [] => True
  | item :: items => item.IsData ∧ ItemsAreData items

def EntriesAreData : List (String × Value) → Prop
  | [] => True
  | (_, value) :: entries => value.IsData ∧ EntriesAreData entries
end

theorem ofNat_cases (n : Nat) :
    (∃ word : Int64, word.toInt = n ∧ ofNat n = int word) ∨ ¬ Fits n ∧ ofNat n = float (floatOfInt n) := by
  unfold ofNat
  cases fits : int64? n with
  | some word => exact .inl ⟨word, int64?_eq_some_iff.mp fits, rfl⟩
  | none => exact .inr ⟨int64?_eq_none_iff.mp fits, rfl⟩

section Rereading

theorem ofJson_ofInt64 (place : Place) (n : Int64) : ofJson place (.ofInt64 n) = int n := by
  unfold Json.ofInt64
  split
  · rename_i natural
    have positive : 0 ≤ n.toInt := Int64.le_iff_toInt_le.mp natural
    have bound := n.toInt_lt
    have word : (n.toInt.toNat.toUInt64.toNat : Int) = n.toInt := by
      have small : n.toInt.toNat < 2 ^ 64 := by omega
      rw [Nat.toUInt64, UInt64.toNat_ofNat_of_lt' small, Int.toNat_of_nonneg positive]
    obtain ⟨other, same, integer⟩ | ⟨large, _⟩ := ofNat_cases n.toInt.toNat.toUInt64.toNat
    · rw [ofJson, ofNumber, integer, Int64.toInt_inj.mp (same.trans word)]
    · exact absurd ⟨n, word.symm⟩ large
  · rfl

theorem ofJson_ofFloat_iff (place : Place) (x : Float) :
    ofJson place (.ofFloat x) = float x ↔ x.isFinite = true := by
  unfold Json.ofFloat
  split
  · rename_i finite
    exact iff_of_true rfl finite
  · rename_i infinite
    exact iff_of_false nofun infinite

/-- Nothing of the host comes from a document. -/
theorem ofJson_ne_object (place : Place) (json : Json) (ref : ObjectRef) :
    ofJson place json ≠ object ref := by
  cases json with
  | number n =>
    cases n with
    | natural n =>
      obtain ⟨word, _, integer⟩ | ⟨_, float⟩ := ofNat_cases n.toNat
      · rw [ofJson, ofNumber, integer]
        nofun
      · rw [ofJson, ofNumber, float]
        nofun
    | _ => nofun
  | _ => nofun

/-- The plan that puts a copy of everything below a place. -/
def renewal (base : Place) : Plan := fun path => some (base.within path)

variable (expand : ObjectRef → Json) (base : Place)

theorem names_entriesToJson (entries : List (String × Value)) :
    Entries.names (entriesToJson expand entries) = Entries.names entries := by
  induction entries with
  | nil => rfl
  | cons entry entries ih => exact congrArg (List.cons entry.1) ih

theorem names_ofFields (place : Place) (index : Nat) (fields : List (String × Json)) :
    Entries.names (ofFields place index fields) = Entries.names fields := by
  induction fields generalizing index with
  | nil => rfl
  | cons field fields ih => exact congrArg (List.cons field.1) (ih (index + 1))

mutual
theorem reread_iff (path : List Nat) : (value : Value) → value.IsOrdered →
    (ofJson (base.within path) (toJsonWith expand value) = value.copied (renewal base) path ↔ value.IsData)
  | null, _ | bool _, _ | str _, _ => iff_of_true rfl trivial
  | int n, _ => iff_of_true (ofJson_ofInt64 _ n) trivial
  | float x, _ => ofJson_ofFloat_iff _ x
  | object ref, _ => iff_of_false (ofJson_ne_object _ _ ref) id
  | function _, _ => iff_of_false nofun id
  | list place items, ordered => by
    simp only [toJsonWith, ofJson, copied, renewal, Option.getD_some, list.injEq, true_and, IsData]
    exact items_reread_iff path 0 items ordered
  | map place entries, ordered => by
    obtain ⟨sorted, ordered⟩ := ordered
    have names : Entries.names (ofFields (base.within path) 0 (entriesToJson expand entries)) =
        Entries.names entries := (names_ofFields _ 0 _).trans (names_entriesToJson expand entries)
    simp only [toJsonWith, ofJson, copied, renewal, Option.getD_some, map.injEq, true_and, IsData,
      (sorted.of_names names).ofList_eq]
    exact entries_reread_iff path 0 entries ordered

theorem items_reread_iff (path : List Nat) (index : Nat) : (items : List Value) → ItemsAreOrdered items →
    (ofItems (base.within path) index (itemsToJson expand items) =
        copiedItems (renewal base) path index items ↔ ItemsAreData items)
  | [], _ => iff_of_true rfl trivial
  | item :: items, ⟨first, others⟩ => by
    simp only [itemsToJson, ofItems, copiedItems, List.cons.injEq, ItemsAreData]
    exact and_congr (reread_iff (index :: path) item first) (items_reread_iff path (index + 1) items others)

theorem entries_reread_iff (path : List Nat) (index : Nat) : (entries : List (String × Value)) →
    EntriesAreOrdered entries →
    (ofFields (base.within path) index (entriesToJson expand entries) =
        copiedEntries (renewal base) path index entries ↔ EntriesAreData entries)
  | [], _ => iff_of_true rfl trivial
  | (name, value) :: entries, ⟨first, others⟩ => by
    simp only [entriesToJson, ofFields, copiedEntries, List.cons.injEq, Prod.mk.injEq, true_and,
      EntriesAreData]
    exact and_congr (reread_iff (index :: path) value first)
      (entries_reread_iff path (index + 1) entries others)
end

end Rereading

section Rewriting

variable (expand : ObjectRef → Json)

theorem toJson_ofNumber_iff : (number : Json.Number) → number.IsKept →
    (toJsonWith expand (ofNumber number) = .number number ↔ number.IntegerFits)
  | .natural n, _ => by
    rw [ofNumber]
    obtain ⟨word, same, integer⟩ | ⟨large, float⟩ := ofNat_cases n.toNat
    · have natural : 0 ≤ word := by
        rw [Int64.le_iff_toInt_le, same]
        exact Int.natCast_nonneg _
      have back : word.toInt.toNat.toUInt64 = n := by
        rw [same, Int.toNat_natCast]
        exact UInt64.ofNat_toNat
      rw [integer, toJsonWith, Json.ofInt64, if_pos natural, back]
      exact iff_of_true rfl ⟨word, same⟩
    · rw [float, toJsonWith, Json.ofFloat]
      refine iff_of_false ?_ large
      split <;> nofun
  | .negative n, negative => by
    have below : ¬ 0 ≤ n := Int64.not_le.mpr negative
    rw [ofNumber, toJsonWith, Json.ofInt64, if_neg below]
    exact iff_of_true rfl trivial
  | .real x, kept => by
    have finite : x.isFinite = true := kept
    rw [ofNumber, toJsonWith, Json.ofFloat, if_pos finite]
    exact iff_of_true rfl trivial

mutual
theorem rewritten_iff (place : Place) : (json : Json) → json.IsKept →
    (toJsonWith expand (ofJson place json) = json ↔ json.IntegersFit)
  | .null, _ | .bool _, _ | .string _, _ => iff_of_true rfl trivial
  | .number n, kept => toJson_ofNumber_iff expand n kept
  | .array items, kept => by
    simp only [ofJson, toJsonWith, Json.array.injEq, Json.IntegersFit]
    exact items_rewritten_iff place 0 items kept
  | .object fields, ⟨sorted, kept⟩ => by
    simp only [ofJson, toJsonWith, Json.object.injEq, Json.IntegersFit,
      (sorted.of_names (names_ofFields place 0 fields)).ofList_eq]
    exact fields_rewritten_iff place 0 fields kept

theorem items_rewritten_iff (place : Place) (index : Nat) : (items : List Json) → Json.ItemsAreKept items →
    (itemsToJson expand (ofItems place index items) = items ↔ Json.ItemsFit items)
  | [], _ => iff_of_true rfl trivial
  | item :: items, ⟨first, others⟩ => by
    simp only [ofItems, itemsToJson, List.cons.injEq, Json.ItemsFit]
    exact and_congr (rewritten_iff (.part index place) item first)
      (items_rewritten_iff place (index + 1) items others)

theorem fields_rewritten_iff (place : Place) (index : Nat) : (fields : List (String × Json)) →
    Json.FieldsAreKept fields →
    (entriesToJson expand (ofFields place index fields) = fields ↔ Json.FieldsFit fields)
  | [], _ => iff_of_true rfl trivial
  | (name, value) :: fields, ⟨first, others⟩ => by
    simp only [ofFields, entriesToJson, List.cons.injEq, Prod.mk.injEq, true_and, Json.FieldsFit]
    exact and_congr (rewritten_iff (.part index place) value first)
      (fields_rewritten_iff place (index + 1) fields others)
end

end Rewriting

theorem toJson_eq (fields : ObjectRef → List (String × Value)) (depth : Nat) :
    ∃ expand, ∀ value, toJson fields depth value = toJsonWith expand value := by
  cases depth with
  | zero => exact ⟨_, fun _ => rfl⟩
  | succ depth => exact ⟨_, fun _ => rfl⟩

section Equality

theorem isNaN_of_isFinite {x : Float} (finite : x.isFinite = true) : x.isNaN = false := by
  change x.toModel.unpack.isFinite = true at finite
  change x.toModel.unpack.isNaN = false
  cases shape : x.toModel.unpack with
  | notANumber =>
    rw [shape] at finite
    cases finite
  | _ => rfl

mutual
theorem IsData.clean : (value : Value) → value.IsData → value.holdsNaN = false
  | float _, finite => isNaN_of_isFinite finite
  | list _ items, data => ItemsAreData.clean items data
  | map _ entries, data => EntriesAreData.clean entries data
  | null, _ | bool _, _ | int _, _ | str _, _ => rfl

theorem ItemsAreData.clean : (items : List Value) → ItemsAreData items → itemsHoldNaN items = false
  | [], _ => rfl
  | item :: items, ⟨first, others⟩ =>
    Bool.or_eq_false_iff.mpr ⟨IsData.clean item first, ItemsAreData.clean items others⟩

theorem EntriesAreData.clean : (entries : List (String × Value)) → EntriesAreData entries →
    entriesHoldNaN entries = false
  | [], _ => rfl
  | (_, value) :: entries, ⟨first, others⟩ =>
    Bool.or_eq_false_iff.mpr ⟨IsData.clean value first, EntriesAreData.clean entries others⟩
end

/-- A copy of plain data is equal to what was copied. -/
theorem IsData.equal_copied {value : Value} (data : value.IsData) (plan : Plan) (path : List Nat) :
    (value.copied plan path).equal value = true := by
  have clean : (value.copied plan path).holdsNaN = false := by rw [holdsNaN_copied, data.clean]
  have identical := identical_copied plan (fun _ => none) path [] value value
  rw [copied_none, identical_self] at identical
  rw [equal, equal_of_clean _ _ clean, identical]

end Equality

/-- A value that becomes a document comes back as a copy of itself, with its integers and floats kept apart,
exactly if it is plain data, and is equal to it. A document that becomes a value comes back as it was, exactly
if its integers fit. -/
theorem lossless_iff (place : Place) (fields : ObjectRef → List (String × Value)) (depth : Nat) :
    (∀ value : Value, value.IsOrdered →
      (ofJson place (value.toJson fields depth) = value.copied (renewal place) [] ↔ value.IsData) ∧
      (value.IsData → (ofJson place (value.toJson fields depth)).equal value = true)) ∧
    ∀ json : Json, json.IsKept → ((ofJson place json).toJson fields depth = json ↔ json.IntegersFit) := by
  obtain ⟨expand, unfolded⟩ := toJson_eq fields depth
  constructor
  · intro value ordered
    have reread := reread_iff expand place [] value ordered
    rw [← unfolded] at reread
    refine ⟨reread, fun data => ?_⟩
    have copy := reread.mpr data
    change ofJson place _ = _ at copy
    rw [copy]
    exact data.equal_copied _ _
  · intro json kept
    rw [unfolded]
    exact rewritten_iff expand place json kept

/-- Limits of integers and a whole float, in a list with a map in it and in an object with an array in it. -/
theorem lossless_iff_nested :
    ofJson (.host 1) (toJson (fun _ => []) 0
        (list (.host 0) [int Int64.minValue, float 5.0, map (.host 2) [("a", null), ("b", str "c")]])) =
      list (.host 1) [int Int64.minValue, float 5.0, map (.part 2 (.host 1)) [("a", null), ("b", str "c")]] ∧
    toJson (fun _ => []) 0 (ofJson (.host 1)
        (.object [("a", .number (.natural 9223372036854775807)), ("b", .array [.number (.real 5.0)])])) =
      .object [("a", .number (.natural 9223372036854775807)), ("b", .array [.number (.real 5.0)])] := by
  have lossless := lossless_iff (.host 1) (fun _ => []) 0
  constructor
  · have sorted : Entries.Sorted [("a", null), ("b", str "c")] := by
      refine List.pairwise_pair.mpr ?_
      decide
    refine (lossless.1 _ ?_).1.mpr ⟨trivial, rfl, ⟨trivial, trivial, trivial⟩, trivial⟩
    exact ⟨trivial, trivial, ⟨sorted, trivial, trivial, trivial⟩, trivial⟩
  · have sorted : Entries.Sorted
        [("a", Json.number (.natural 9223372036854775807)), ("b", .array [.number (.real 5.0)])] := by
      refine List.pairwise_pair.mpr ?_
      decide
    refine (lossless.2 _ ?_).mpr ⟨⟨9223372036854775807, rfl⟩, ⟨trivial, trivial⟩, trivial⟩
    exact ⟨sorted, trivial, ⟨rfl, trivial⟩, trivial⟩

end Value
end ChangeWatch
