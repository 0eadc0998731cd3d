/-
Module: CanvasExport.Palette.Basic
Layer: Palette
Purpose: Palette configurations: the engine version they need, the number of figures, the two globals of the
  emitted code and the color table. Any texts make a palette; `problems` lists what would make the emitted
  code invalid.
Main exports: Palette, Palette.standard, isIdentifier, isColorKey, PaletteProblem, Palette.problems
-/
import CanvasExport.Palette.Colors
import CanvasExport.Text.Escaped

namespace CanvasExport

/-- The version of this engine. -/
def engineVersion : Text := "1.0.0".toList

structure Palette where
  /-- The least engine version that the palette works with. -/
  engineMinVersion : Text
  /-- The number of figures whose layers are gated. -/
  figures : UInt32
  /-- The global that the aliased variant binds. -/
  paletteGlobal : Text
  /-- The global table that the indexed variant reads. -/
  paletteTable : Text
  colors : ColorTable
deriving DecidableEq

/-- Whether a text is an identifier of the emitted code; only ASCII names are accepted. -/
def isIdentifier : Text → Bool
  | [] => false
  | c :: rest =>
    let starts := fun d : Char => d.isAlpha || d == '_' || d == '$'
    starts c && rest.all fun d => starts d || d.isDigit

/-- Whether a text is `#` and six hexadecimal digits. -/
def isColorKey : Text → Bool
  | '#' :: digits => digits.length == 6 && digits.all fun c => (Text.hexValue? c).isSome
  | _ => false

/-- What would make the emitted code invalid. -/
inductive PaletteProblem where
  | badGlobal (name : Text)
  | badColor (color : Text)
  | badSlot (slot color : Text)
deriving DecidableEq, Repr, Inhabited

namespace PaletteProblem

def message : PaletteProblem → Text
  | .badGlobal name => "'".toList ++ name ++ "' is not a JavaScript identifier".toList
  | .badColor color => "'".toList ++ color ++ "' is not a #RRGGBB color".toList
  | .badSlot slot color =>
    "slot '".toList ++ slot ++ "' for ".toList ++ color ++ " is not a JavaScript identifier".toList

end PaletteProblem

namespace Palette

/-- The built-in palette, whose values stand in for fields that a configuration leaves out. -/
def standard : Palette where
  engineMinVersion := engineVersion
  figures := 2
  paletteGlobal := "avatarPalette".toList
  paletteTable := "assetPalettes".toList
  colors := .ofList [
    ("#666600".toList, "eyeA".toList),
    ("#663300".toList, "hairA".toList),
    ("#FFCC99".toList, "skinA".toList),
    ("#F49E50".toList, "skinB".toList),
    ("#E5CCFF".toList, "outfitA".toList),
    ("#70618D".toList, "outfitB".toList)]

/-- The problems of one entry of the color table. -/
def entryProblems (entry : Text × Text) : List PaletteProblem :=
  (if isColorKey entry.1 then [] else [.badColor entry.1])
    ++ if isIdentifier entry.2 then [] else [.badSlot entry.2 entry.1]

/-- All problems: the globals first, then the color table in its order. -/
def problems (palette : Palette) : List PaletteProblem :=
  ([palette.paletteGlobal, palette.paletteTable].filter fun name => !isIdentifier name).map .badGlobal
    ++ palette.colors.entries.flatMap entryProblems

end Palette

end CanvasExport
