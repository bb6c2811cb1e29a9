import Mathlib.Data.String.Basic
import TagLint.Text.Units

/-!
# Slices of a string

A string can be cut between two characters, that is behind the bytes of some of its first characters
(`isValid_byteLength`); the slice between two such places holds the characters between them (`extract_byteLength`).
-/

namespace TagLint.Text

/-- A string can be cut out between two byte offsets. -/
structure Cuts (source : String) (start stop : ℕ) : Prop where
  le : start ≤ stop
  le_size : stop ≤ source.utf8ByteSize
  start_valid : String.Pos.Raw.IsValid source ⟨start⟩
  stop_valid : String.Pos.Raw.IsValid source ⟨stop⟩

theorem byteLength_eq_utf8Len (cs : List Char) : byteLength cs = String.utf8Len cs := by
  induction cs with
  | nil => rfl
  | cons c cs ih => rw [byteLength_cons, ih, String.utf8Len_cons, Nat.add_comm]

section

variable {source : String} {as bs cs : List Char}

theorem byteLength_toList (source : String) : byteLength source.toList = source.utf8ByteSize := by
  rw [byteLength_eq_utf8Len, ← String.utf8ByteSize_ofList, String.ofList_toList]

/-- Between two characters stands a place at which a string can be cut. -/
theorem isValid_byteLength (h : source.toList = as ++ bs) : String.Pos.Raw.IsValid source ⟨byteLength as⟩ := by
  refine String.Pos.Raw.isValid_iff_exists_append.mpr ⟨String.ofList as, String.ofList bs, ?_, ?_⟩
  · rw [← String.ofList_append, ← h, String.ofList_toList]
  · rw [byteLength_eq_utf8Len, ← String.utf8ByteSize_ofList]
    rfl

theorem cuts_byteLength (h : source.toList = as ++ (bs ++ cs)) :
    Cuts source (byteLength as) (byteLength (as ++ bs)) := by
  have hbehind : source.toList = (as ++ bs) ++ cs := by rw [h, List.append_assoc]
  have hsize : byteLength (as ++ bs) + byteLength cs = source.utf8ByteSize := by
    rw [← byteLength_append, ← hbehind, byteLength_toList]
  refine ⟨?_, by omega, isValid_byteLength h, isValid_byteLength hbehind⟩
  rw [byteLength_append]
  omega

/-- A slice holds the characters between its ends. -/
theorem extract_byteLength (h : source.toList = as ++ (bs ++ cs)) :
    String.Pos.Raw.extract source ⟨byteLength as⟩ ⟨byteLength (as ++ bs)⟩ = String.ofList bs := by
  rw [← @String.ofList_toList source, h, ← List.append_assoc, byteLength_append, byteLength_eq_utf8Len,
    byteLength_eq_utf8Len]
  exact String.extract_of_valid as bs cs

end

end TagLint.Text
