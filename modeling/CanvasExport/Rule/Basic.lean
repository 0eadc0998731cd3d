/-
Module: CanvasExport.Rule.Basic
Layer: Rule
Purpose: The rules of a rewrite as data, with one function that applies them. A rule reads a text and writes a
  text together with the number of replacements that it counts; what a count of zero means is for the
  caller to decide.
Main exports: RuleName, Rule, DocumentContext, Rewrite, Rule.name, Rule.apply
-/
import CanvasExport.Rule.Alias
import CanvasExport.Rule.Bitmap
import CanvasExport.Rule.Fill
import CanvasExport.Rule.Layer
import CanvasExport.Rule.Lookup

namespace CanvasExport

/-- The names under which rules are reported. -/
inductive RuleName where
  | paletteAlias
  | paletteColors
  | indexedPaletteColors
  | layerVisibility
  | assetPath
  | fileIdLookup
deriving DecidableEq, Repr, Inhabited

namespace RuleName

def text : RuleName → Text
  | .paletteAlias => "palette_alias".toList
  | .paletteColors => "palette_colors".toList
  | .indexedPaletteColors => "indexed_palette_colors".toList
  | .layerVisibility => "layer_visibility".toList
  | .assetPath => "asset_path".toList
  | .fileIdLookup => "file_id_lookup".toList

end RuleName

/-- One rewrite rule with its parameters. -/
inductive Rule where
  /-- Binds the palette global in each stage constructor. -/
  | paletteAlias (global : Text)
  /-- Swaps each color's fills for its slot, one color after the other. -/
  | paletteColors (colors : List (Text × Text))
  /-- Swaps indexed fills for slots of the table. -/
  | indexedPaletteColors (table : Text)
  /-- Guards the tagged layers of the first `figures` figures by the selection. -/
  | layerVisibility (figures : Nat) (selection : Text)
  /-- Points cached bitmaps at a directory. -/
  | assetPath (directory : Text)
  /-- Registers the document's stem. -/
  | fileIdLookup
deriving DecidableEq, Repr, Inhabited

/-- What a rule may know about the document beyond its text. -/
structure DocumentContext where
  /-- The file name without its extension. -/
  stem : Text
  ending : LineEnding
deriving DecidableEq, Repr, Inhabited

namespace DocumentContext

/-- The context of a document, before any rule has changed it. -/
def ofDocument (stem document : Text) : DocumentContext :=
  ⟨stem, LineEnding.ofText document⟩

end DocumentContext

/-- A rewritten text and the number of replacements in it. -/
structure Rewrite where
  text : Text
  replacements : Nat
deriving DecidableEq, Repr, Inhabited

namespace Rewrite

/-- The rewrite that a script describes. -/
def ofScript (s : Script) : Rewrite :=
  ⟨s.result, s.swaps⟩

/-- Goes on with another pass over the rewritten text; the counts add up. -/
def andThen (r : Rewrite) (pass : Text → Script) : Rewrite :=
  let next := ofScript (pass r.text)
  ⟨next.text, r.replacements + next.replacements⟩

/-- The passes one after the other, each over the text that the previous one wrote. -/
def passes (t : Text) (scripts : List (Text → Script)) : Rewrite :=
  scripts.foldl andThen ⟨t, 0⟩

end Rewrite

namespace Rule

def name : Rule → RuleName
  | .paletteAlias _ => .paletteAlias
  | .paletteColors _ => .paletteColors
  | .indexedPaletteColors _ => .indexedPaletteColors
  | .layerVisibility _ _ => .layerVisibility
  | .assetPath _ => .assetPath
  | .fileIdLookup => .fileIdLookup

/-- Applies the rule to a text. -/
def apply (rule : Rule) (context : DocumentContext) (t : Text) : Rewrite :=
  match rule with
  | .paletteAlias global => .ofScript (aliasScript context.ending global t)
  | .paletteColors colors => .passes t (colors.map fun entry => (swapColor entry.1 entry.2).script)
  | .indexedPaletteColors table => .ofScript ((swapIndexed table).script t)
  | .layerVisibility figures selection =>
    .passes t ((gatesOf figures).map fun gate => (gate.recognizer selection).script)
  | .assetPath directory => .ofScript ((remapBitmaps directory).script t)
  | .fileIdLookup => .ofScript (lookupScript context.ending context.stem t)

end Rule

end CanvasExport
