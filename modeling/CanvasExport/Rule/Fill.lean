/-
Module: CanvasExport.Rule.Fill
Layer: Rule
Purpose: Fill literals. A fill is written `graphics.f("<color>").s()`; a configured color becomes a slot of
  the aliased palette, and a color of the form `#C0PPSS` names a slot of an indexed table by its palette
  and slot numbers.
Main exports: fillLiteral, fillReference, swapColor, indexedFill?, swapIndexed, swapIndexed_faithful
-/
import CanvasExport.Text.Edit

namespace CanvasExport.Rule

/-- The fill call with the text of its argument. -/
def fillReference (argument : Text) : Text :=
  "graphics.f(".toList ++ argument ++ ").s()".toList

/-- The fill call with a fixed color. -/
def fillLiteral (color : Text) : Text :=
  fillReference (['"'] ++ color ++ ['"'])

/-- The reference to a slot of the aliased palette. -/
def slotReference (slot : Text) : Text :=
  fillReference ("this.assetPalette.".toList ++ slot)

/-- Swaps the fills of one color for its slot. -/
def swapColor (color slot : Text) : Recognizer :=
  Recognizer.literal (fillLiteral color) (slotReference slot)

/-- Two digits as an index, without a leading zero unless the index is zero. -/
def trimIndex (digits : Text) : Text :=
  match digits.dropWhile (· == '0') with
  | [] => ['0']
  | trimmed => trimmed

/-- A fill whose color carries palette and slot numbers. -/
structure IndexedFill where
  /-- The literal as it stands. -/
  found : Text
  palette : Text
  slot : Text
deriving DecidableEq, Repr

/-- The indexed fill at the head of the text: the color is `#C0` or `#c0` and two digits for each number. -/
def indexedFill? (t : Text) : Option IndexedFill := do
  match ← Text.strip? "graphics.f(\"#".toList t with
  | c :: '0' :: p₁ :: p₂ :: s₁ :: s₂ :: rest =>
    if (c == 'C' || c == 'c') && [p₁, p₂, s₁, s₂].all Char.isDigit then
      let _ ← Text.strip? "\").s()".toList rest
      some ⟨fillLiteral ['#', c, '0', p₁, p₂, s₁, s₂], [p₁, p₂], [s₁, s₂]⟩
    else
      none
  | _ => none

theorem prefix_of_indexedFill? {t : Text} {fill : IndexedFill} (h : indexedFill? t = some fill) :
    ∃ rest, t = fill.found ++ rest := by
  obtain ⟨afterOpening, hopening, h⟩ := Option.bind_eq_some_iff.1 h
  split at h
  · split at h
    · obtain ⟨rest, hclosing, h⟩ := Option.bind_eq_some_iff.1 h
      obtain rfl := Option.some.inj h
      refine ⟨rest, ?_⟩
      rw [Text.strip?_eq_some_iff.1 hopening, Text.strip?_eq_some_iff.1 hclosing]
      rfl
    · contradiction
  · contradiction

theorem found_ne_nil_of_indexedFill? {t : Text} {fill : IndexedFill} (h : indexedFill? t = some fill) :
    fill.found ≠ [] := by
  obtain ⟨afterOpening, hopening, h⟩ := Option.bind_eq_some_iff.1 h
  split at h
  · split at h
    · obtain ⟨rest, hclosing, h⟩ := Option.bind_eq_some_iff.1 h
      obtain rfl := Option.some.inj h
      exact List.cons_ne_nil _ _
    · contradiction
  · contradiction

/-- Swaps indexed fills for the table's slot. -/
def swapIndexed (table : Text) : Recognizer := fun _ t =>
  (indexedFill? t).map fun fill =>
    [.swap fill.found (fillReference
      (table ++ ['['] ++ trimIndex fill.palette ++ [']', '['] ++ trimIndex fill.slot ++ [']']))]

theorem swapIndexed_faithful (table : Text) : (swapIndexed table).Faithful := by
  intro before t s hs
  obtain ⟨fill, hfill, rfl⟩ := Option.map_eq_some_iff.1 hs
  obtain ⟨rest, ht⟩ := prefix_of_indexedFill? hfill
  refine ⟨by simpa [Script.source, Edit.source] using found_ne_nil_of_indexedFill? hfill, rest, ?_⟩
  simpa [Script.source, Edit.source] using ht

end CanvasExport.Rule
