/-
Module: CanvasExport.Publish.Pipeline
Layer: Publish
Purpose: Publishing a document in memory. A pipeline is the ordered rule list of one palette and variant; it
  exists only for a palette that this engine can serve and whose emitted code is valid. The marker is
  checked before any rule runs, so a document is rewritten at most once unless it is forced.
Main exports: Rule.listFor, checkEngine, Pipeline, Pipeline.create, PublishedDocument,
  Pipeline.publishDocument
-/
import CanvasExport.Document.Marker
import CanvasExport.Options.Basic
import CanvasExport.Publish.Event
import CanvasExport.Version.Parser

namespace CanvasExport

/-- The expression that the generated conditions read the selection from. -/
def selectionOf (variant : Variant) (palette : Palette) : Text :=
  match variant with
  | .aliased => "this.assetPalette".toList
  | .indexed => palette.paletteTable ++ ".selected".toList

/-- The rules that turn fills into palette references. -/
def fillRules (variant : Variant) (palette : Palette) : List Rule :=
  match variant with
  | .aliased => [.paletteAlias palette.paletteGlobal, .paletteColors palette.colors.entries]
  | .indexed => [.indexedPaletteColors palette.paletteTable]

/-- The rules of a variant in the order in which they run. -/
def Rule.listFor (palette : Palette) (variant : Variant) (remapAssetPath : Bool) : List Rule :=
  fillRules variant palette
    ++ [.layerVisibility palette.figures.toNat (selectionOf variant palette)]
    ++ (if remapAssetPath then [.assetPath variant.cacheDirectory] else [])
    ++ [.fileIdLookup]

/-- This engine's version as a version. -/
def engine : Version := ⟨1, 0, 0, [], []⟩

/-- Whether this engine can serve the palette. -/
def checkEngine (palette : Palette) : Except PublishError Unit :=
  match Version.parse? palette.engineMinVersion with
  | none => .error (.invalidVersion palette.engineMinVersion)
  | some wanted =>
    if engine.compare wanted = .lt then .error (.engineTooOld palette.engineMinVersion) else .ok ()

/-- The rules that a document goes through, with the options of the run. -/
structure Pipeline where
  options : Options
  rules : List Rule
deriving DecidableEq, Repr, Inhabited

/-- A document after its rules, still in memory, with each rule's number of replacements. -/
structure PublishedDocument where
  text : Text
  rules : List (RuleName × Nat)
deriving DecidableEq, Repr, Inhabited

namespace Pipeline

/-- The pipeline of a palette; the engine is checked before the palette's own problems. -/
def create (palette : Palette) (options : Options) : Except PublishError Pipeline := do
  checkEngine palette
  match palette.problems with
  | [] => return ⟨options, Rule.listFor palette options.variant options.remapAssetPath⟩
  | problems => throw (.invalidPalette problems)

/-- The names of the rules in the order in which they run. -/
def ruleNames (pipeline : Pipeline) : List RuleName :=
  pipeline.rules.map Rule.name

/-- What a rule without replacements comes to. -/
def handleUnmatched (policy : UnmatchedPolicy) (rule : RuleName) (stem : Text) : Logged Unit :=
  match policy with
  | .ignore => .of (.ok ())
  | .warn => ⟨[.unmatchedRule rule stem], .ok ()⟩
  | .fail => .of (.error (.ruleUnmatched rule))

/-- The rules one after the other. Each is reported once it has run; then its count is acted on. -/
def applyRules (policy : UnmatchedPolicy) (context : DocumentContext) :
    List Rule → Text → Logged PublishedDocument
  | [], t => .of (.ok ⟨t, []⟩)
  | rule :: rest, t =>
    let rewrite := rule.apply context t
    let unmatched : Logged Unit :=
      if rewrite.replacements = 0 then handleUnmatched policy rule.name context.stem else .of (.ok ())
    let events := .appliedRule rule.name rewrite.replacements :: unmatched.events
    match unmatched.outcome with
    | .error error => ⟨events, .error error⟩
    | .ok () =>
      ((applyRules policy context rest rewrite.text).map fun document =>
        { document with rules := (rule.name, rewrite.replacements) :: document.rules }).after events

/-- The text with the marker on a line of its own at its end. -/
def mark (ending : LineEnding) (t : Text) : Text :=
  t ++ ending.text ++ marker

/-- The text that the rules start from; `none` for a published document that is not forced. -/
def source? (pipeline : Pipeline) (document : Text) : Option Text :=
  if isPublished document then
    if pipeline.options.force then some (stripMarker document) else none
  else
    some document

/-- Publishes a document under a stem. -/
def publishDocument (pipeline : Pipeline) (document stem : Text) : Logged PublishedDocument :=
  match pipeline.source? document with
  | none => .of (.error .alreadyPublished)
  | some source =>
    let context := DocumentContext.ofDocument stem source
    (applyRules pipeline.options.onUnmatched context pipeline.rules source).map fun document =>
      { document with text := mark context.ending document.text }

end Pipeline

end CanvasExport
