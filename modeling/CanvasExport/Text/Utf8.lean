/-
Module: CanvasExport.Text.Utf8
Layer: Text
Purpose: Texts as the bytes of a file. Every text has its UTF-8 bytes; only some byte sequences are the bytes
  of a text, and reading refuses the others as a whole.
Main exports: Text.utf8, Text.ofUtf8?, Text.ofUtf8?_utf8
-/
import CanvasExport.Text.Basic

namespace CanvasExport.Text

/-- The bytes of the text. -/
def utf8 (t : Text) : ByteArray :=
  (String.ofList t).toUTF8

/-- The text whose bytes these are. -/
def ofUtf8? (bytes : ByteArray) : Option Text :=
  (String.fromUTF8? bytes).map String.toList

/-- Reading gives back every text that was written. -/
theorem ofUtf8?_utf8 (t : Text) : ofUtf8? (utf8 t) = some t := by
  have hread : String.fromUTF8? (String.ofList t).toUTF8 = some (String.ofList t) := by
    have hvalid : (String.ofList t).toUTF8.IsValidUTF8 := (String.ofList t).isValidUTF8
    rw [String.fromUTF8?, dif_pos hvalid]
    rfl
  rw [ofUtf8?, utf8, hread]
  simp

/-- Only the bytes of a text are read as that text. -/
theorem utf8_of_ofUtf8? {bytes : ByteArray} {t : Text} (h : ofUtf8? bytes = some t) : utf8 t = bytes := by
  simp [ofUtf8?, String.fromUTF8?, String.fromUTF8] at h
  obtain ⟨hvalid, rfl⟩ := h
  simp [utf8]

end CanvasExport.Text
