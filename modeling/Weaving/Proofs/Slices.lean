import Mathlib.Data.List.Basic

/-!
Slices of a text. A place in a text is a count of bytes, and a slice is what stands between two places that
lie between characters. What the characters of a text are taken apart into are slices of it
(`Text.standsAt_of_toList`).
-/

namespace Weaving.Text

/-- The size of characters in bytes. -/
def byteCount (cs : List Char) : Nat := (String.ofList cs).utf8ByteSize

@[simp] theorem byteCount_nil : byteCount [] = 0 := by simp [byteCount]

@[simp] theorem byteCount_append (first second : List Char) :
    byteCount (first ++ second) = byteCount first + byteCount second := by
  simp [byteCount, String.ofList_append]

theorem byteCount_singleton (c : Char) : byteCount [c] = c.utf8Size := by
  rw [byteCount, ← String.singleton_eq_ofList, String.utf8ByteSize_singleton]

@[simp] theorem byteCount_toList (text : String) : byteCount text.toList = text.utf8ByteSize := by
  rw [byteCount, String.ofList_toList]

/-- A text is the slice of a source that starts at a place, and it starts and ends between characters. -/
structure StandsAt (source text : String) (start : Nat) : Prop where
  first : String.Pos.Raw.IsValid source ⟨start⟩
  last : String.Pos.Raw.IsValid source ⟨start + text.utf8ByteSize⟩
  slice : source.toByteArray.extract start (start + text.utf8ByteSize) = text.toByteArray

/-- The place behind the first part of a text lies between characters. -/
theorem isValid_append (before after : String) :
    String.Pos.Raw.IsValid (before ++ after) ⟨before.utf8ByteSize⟩ :=
  String.Pos.Raw.isValid_iff_exists_append.mpr ⟨before, after, rfl, rfl⟩

/-- What stands between two parts is a slice of the whole. -/
theorem standsAt_append (before text after : String) :
    StandsAt (before ++ text ++ after) text before.utf8ByteSize := by
  refine ⟨?_, ?_, ?_⟩
  · rw [String.append_assoc]
    exact isValid_append before (text ++ after)
  · rw [← String.utf8ByteSize_append]
    exact isValid_append (before ++ text) after
  · have bytes : (before ++ text ++ after).toByteArray =
        before.toByteArray ++ (text.toByteArray ++ after.toByteArray) := by
      rw [String.toByteArray_append, String.toByteArray_append, ByteArray.append_assoc]
    calc (before ++ text ++ after).toByteArray.extract before.utf8ByteSize
          (before.utf8ByteSize + text.utf8ByteSize)
      _ = (text.toByteArray ++ after.toByteArray).extract 0 text.utf8ByteSize := by
        rw [bytes, ← String.size_toByteArray]
        exact ByteArray.extract_append_size_add (i := 0)
      _ = text.toByteArray := ByteArray.extract_append_eq_left rfl

/-- So is what stands between some of its characters. -/
theorem standsAt_of_toList {source : String} {before text after : List Char}
    (parts : source.toList = before ++ text ++ after) :
    StandsAt source (String.ofList text) (byteCount before) := by
  have whole : source = String.ofList before ++ String.ofList text ++ String.ofList after := by
    rw [← String.ofList_append, ← String.ofList_append, ← parts, String.ofList_toList]
  rw [whole]
  exact standsAt_append _ _ _

end Weaving.Text
