import ChangeWatch.Proofs.Segments.Piecewise
import Mathlib.Data.String.Basic

/-!
Places in a text. What stands between two bytes at the bounds of characters is a part of the text, with
something before it and something behind it.
-/
namespace ChangeWatch

variable {text : String} {start stop : Nat} {before part after cs : List Char}

namespace Lexer

theorem byteSize_eq_utf8Len : ∀ cs : List Char, byteSize cs = String.utf8Len cs
  | [] => rfl
  | c :: cs => by rw [byteSize, byteSize_eq_utf8Len cs, String.utf8Len, Nat.add_comm]

theorem utf8ByteSize_ofList (cs : List Char) : (String.ofList cs).utf8ByteSize = byteSize cs := by
  rw [String.utf8ByteSize_ofList, byteSize_eq_utf8Len]

theorem byteSize_pos (some : cs ≠ []) : 0 < byteSize cs := by
  obtain ⟨c, cs, rfl⟩ := List.exists_cons_of_ne_nil some
  exact Nat.add_pos_left c.utf8Size_pos (byteSize cs)

end Lexer

/-- The letters between two bytes of a text, with those before and behind them. -/
structure Between (text : String) (start stop : Nat) (before part after : List Char) : Prop where
  split : text.toList = before ++ (part ++ after)
  start_eq : start = Lexer.byteSize before
  stop_eq : stop = start + Lexer.byteSize part

/-- The text between two bytes. -/
def slice (text : String) (start stop : Nat) : String := String.Pos.Raw.extract text ⟨start⟩ ⟨stop⟩

theorem isValid_byteSize (split : text.toList = before ++ after) :
    String.Pos.Raw.IsValid text ⟨Lexer.byteSize before⟩ := by
  refine String.Pos.Raw.isValid_iff_exists_append.mpr ⟨.ofList before, .ofList after, ?_, ?_⟩
  · rw [← String.ofList_append, ← split, String.ofList_toList]
  · rw [String.rawEndPos, Lexer.utf8ByteSize_ofList]

theorem exists_of_isValid {place : Nat} (valid : String.Pos.Raw.IsValid text ⟨place⟩) :
    ∃ before after, text.toList = before ++ after ∧ place = Lexer.byteSize before := by
  obtain ⟨first, last, rfl, same⟩ := String.Pos.Raw.isValid_iff_exists_append.mp valid
  refine ⟨first.toList, last.toList, String.toList_append, ?_⟩
  rw [← Lexer.utf8ByteSize_ofList, String.ofList_toList]
  exact congrArg String.Pos.Raw.byteIdx same

namespace Between

theorem start_valid (between : Between text start stop before part after) :
    String.Pos.Raw.IsValid text ⟨start⟩ := by
  rw [between.start_eq]
  exact isValid_byteSize between.split

theorem stop_valid (between : Between text start stop before part after) :
    String.Pos.Raw.IsValid text ⟨stop⟩ := by
  rw [between.stop_eq, between.start_eq, ← Lexer.byteSize_append]
  exact isValid_byteSize (between.split.trans (List.append_assoc _ _ _).symm)

theorem stop_le (between : Between text start stop before part after) : stop ≤ text.utf8ByteSize := by
  rw [← String.ofList_toList (s := text), between.split, Lexer.utf8ByteSize_ofList, between.stop_eq,
    between.start_eq, Lexer.byteSize_append, Lexer.byteSize_append, ← Nat.add_assoc]
  exact Nat.le_add_right _ _

theorem slice (between : Between text start stop before part after) :
    slice text start stop = String.ofList part := by
  rw [ChangeWatch.slice, ← String.ofList_toList (s := text), between.split, between.stop_eq,
    between.start_eq, Lexer.byteSize_eq_utf8Len, Lexer.byteSize_eq_utf8Len, ← List.append_assoc]
  exact String.extract_of_valid before part after

/-- A part of a part. -/
theorem inside (between : Between text start stop before part after) {front letters behind : List Char}
    (split : part = front ++ (letters ++ behind)) :
    Between text (start + Lexer.byteSize front) (start + Lexer.byteSize front + Lexer.byteSize letters)
      (before ++ front) letters (behind ++ after) where
  split := by rw [between.split, split, List.append_assoc, List.append_assoc, List.append_assoc]
  start_eq := by rw [between.start_eq, Lexer.byteSize_append]
  stop_eq := rfl

/-- Two bounds of characters in order have a part between them. -/
theorem exist (first : String.Pos.Raw.IsValid text ⟨start⟩) (last : String.Pos.Raw.IsValid text ⟨stop⟩)
    (order : start ≤ stop) : ∃ before part after, Between text start stop before part after := by
  obtain ⟨before, behind, split, rfl⟩ := exists_of_isValid first
  obtain ⟨front, after, same, rfl⟩ := exists_of_isValid last
  rcases List.append_eq_append_iff.mp (split.symm.trans same) with ⟨part, rfl, rfl⟩ | ⟨part, rfl, rfl⟩
  · exact ⟨before, part, after, split, rfl, Lexer.byteSize_append before part⟩
  · -- The later bound is not behind the earlier one, and then they are the same.
    rw [Lexer.byteSize_append] at order
    have none : part = [] := by
      by_contra some
      have positive := Lexer.byteSize_pos some
      omega
    subst none
    rw [List.append_nil]
    exact ⟨front, [], behind, same, rfl, rfl⟩

end Between

end ChangeWatch
