/-
Module: CanvasExport.Palette.Colors
Layer: Palette
Purpose: The color table of a palette: a finite map from color keys to slot names, kept in the order of the
  keys. It decides in which order fills are swapped and problems are listed, so it is part of the type.
Main exports: ColorTable, ColorTable.insert, ColorTable.ofList
-/
import CanvasExport.Text.Order

namespace CanvasExport

/-- Color keys with their slots, each key once, in ascending order. -/
structure ColorTable where
  entries : List (Text × Text)
  ascending : entries.Pairwise fun a b => a.1.precedes b.1
deriving DecidableEq

namespace ColorTable

/-- Puts an entry at its place; an entry of the same key gives way. -/
def insertEntry (color slot : Text) : List (Text × Text) → List (Text × Text)
  | [] => [(color, slot)]
  | entry :: rest =>
    if color.precedes entry.1 then (color, slot) :: entry :: rest
    else if color = entry.1 then (color, slot) :: rest
    else entry :: insertEntry color slot rest

theorem mem_insertEntry {color slot : Text} {entries : List (Text × Text)} {entry : Text × Text}
    (h : entry ∈ insertEntry color slot entries) : entry = (color, slot) ∨ entry ∈ entries := by
  induction entries with
  | nil => simpa [insertEntry] using h
  | cons first rest ih =>
    rw [insertEntry] at h
    split at h
    · simpa using h
    · split at h
      · rcases List.mem_cons.1 h with h | h
        · exact .inl h
        · exact .inr (List.mem_cons_of_mem _ h)
      · rcases List.mem_cons.1 h with h | h
        · exact .inr (h ▸ List.mem_cons_self)
        · exact (ih h).imp_right (List.mem_cons_of_mem _)

theorem ascending_insertEntry {entries : List (Text × Text)} (color slot : Text)
    (h : entries.Pairwise fun a b => a.1.precedes b.1) :
    (insertEntry color slot entries).Pairwise fun a b => a.1.precedes b.1 := by
  induction entries with
  | nil => simp [insertEntry]
  | cons first rest ih =>
    rw [List.pairwise_cons] at h
    rw [insertEntry]
    split
    · rename_i hlt
      refine List.pairwise_cons.2 ⟨fun entry hmem => ?_, List.pairwise_cons.2 h⟩
      rcases List.mem_cons.1 hmem with rfl | hmem
      · exact hlt
      · exact Text.precedes_trans hlt (h.1 entry hmem)
    · split
      · rename_i heq
        exact List.pairwise_cons.2 ⟨fun entry hmem => heq ▸ h.1 entry hmem, h.2⟩
      · rename_i hnlt hne
        refine List.pairwise_cons.2 ⟨fun entry hmem => ?_, ih h.2⟩
        rcases mem_insertEntry hmem with rfl | hmem
        · exact Text.precedes_of_not_precedes hnlt hne
        · exact h.1 entry hmem

/-- The table without entries. -/
def empty : ColorTable :=
  ⟨[], List.Pairwise.nil⟩

/-- The table with the entry added, or put in place of the entry with its key. -/
def insert (table : ColorTable) (color slot : Text) : ColorTable :=
  ⟨insertEntry color slot table.entries, ascending_insertEntry color slot table.ascending⟩

/-- The entries one after the other; of equal keys the last stays. -/
def ofList (entries : List (Text × Text)) : ColorTable :=
  entries.foldl (fun table entry => table.insert entry.1 entry.2) empty

end ColorTable

end CanvasExport
