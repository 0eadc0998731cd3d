/-
Module: CanvasExport.Palette.Json
Layer: Palette
Purpose: Palettes as JSON. A palette is written with all its fields; when it is read, a missing field keeps its
  built-in value, and a color table that is given replaces the built-in one as a whole.
Main exports: Palette.toJson, Palette.fields, Palette.parse
-/
import CanvasExport.Json.Record
import CanvasExport.Json.Value
import CanvasExport.Palette.Basic

namespace CanvasExport

namespace ColorTable

/-- The table as an object. -/
def toJson (table : ColorTable) : Json :=
  .object (table.entries.map fun entry => (entry.1, .string entry.2))

/-- A table written as an object; of equal keys the last counts. -/
def read : Json.Reader ColorTable := do
  if (← Json.peekValue) = '\x7b' then
    Json.skip
    Json.readMembers (fun table color => do Json.readColon; return table.insert color (← Json.readText)) empty
  else
    Json.failType "a map".toList

end ColorTable

namespace Palette

def toJson (palette : Palette) : Json :=
  .object [
    ("engineMinVersion".toList, .string palette.engineMinVersion),
    ("figures".toList, .number palette.figures.toNat),
    ("paletteGlobal".toList, .string palette.paletteGlobal),
    ("paletteTable".toList, .string palette.paletteTable),
    ("colors".toList, palette.colors.toJson)]

/-- The fields in the order in which a list gives them. -/
def fields : List (Json.Field Palette) := [
  ⟨"engineMinVersion".toList, fun p => return { p with engineMinVersion := ← Json.readText }⟩,
  ⟨"figures".toList, fun p => return { p with figures := ← Json.readWord }⟩,
  ⟨"paletteGlobal".toList, fun p => return { p with paletteGlobal := ← Json.readText }⟩,
  ⟨"paletteTable".toList, fun p => return { p with paletteTable := ← Json.readText }⟩,
  ⟨"colors".toList, fun p => return { p with colors := ← ColorTable.read }⟩]

/-- Reads a palette from a configuration text. -/
def parse (t : Text) : Except Json.Error Palette :=
  Json.parse (Json.readRecord "struct PaletteConfig".toList fields standard) t

end Palette

end CanvasExport
