/-
Module: CanvasExport.Rule.Alias
Layer: Rule
Purpose: The alias statement. The body of an exported stage starts with the line `// stage content:` and the
  line of its constructor; the statement that binds the palette goes right after that second line. A text
  that holds the statement already is left alone, and each of its occurrences counts.
Main exports: aliasStatement, stageConstructor?, insertAlias, insertAlias_faithful, aliasScript
-/
import CanvasExport.Text.Edit
import CanvasExport.Text.Line

namespace CanvasExport.Rule

/-- The comment line above a stage constructor. -/
def stageHeading : Text := "// stage content:".toList

/-- How the parameter list of a stage constructor begins. -/
def constructorOpening : Text := "function(mode,startPosition,loop".toList

/-- The statement that binds the palette global inside the stage. -/
def aliasStatement (global : Text) : Text :=
  "this.assetPalette = ".toList ++ global ++ [';']

/-- Whether a line is that of a stage constructor: its parameter list opens and a parenthesis closes after
    it. If any opening has one, the first has. -/
def isConstructorLine (line : Text) : Bool :=
  match Text.cut? constructorOpening line with
  | some (_, after) => after.contains ')'
  | none => false

/-- The heading line and the constructor line at the head of the text, without the break that ends the
    second. -/
def stageConstructor? (before : Option Char) (t : Text) : Option Text :=
  if startsLine before t.head? then do
    let afterHeading ← Text.strip? stageHeading t
    let (lineBreak, below) ← dropLineBreak? afterHeading
    let line := lineContent below
    if isConstructorLine line then some (stageHeading ++ lineBreak ++ line) else none
  else
    none

theorem prefix_of_stageConstructor? {before : Option Char} {t found : Text}
    (h : stageConstructor? before t = some found) : found ≠ [] ∧ ∃ rest, t = found ++ rest := by
  rw [stageConstructor?] at h
  split at h
  · obtain ⟨afterHeading, hheading, h⟩ := Option.bind_eq_some_iff.1 h
    obtain ⟨⟨lineBreak, below⟩, hbreak, h⟩ := Option.bind_eq_some_iff.1 h
    dsimp only at h
    split at h
    · obtain rfl := Option.some.inj h
      constructor
      · intro hnil
        have hhead := (List.append_eq_nil_iff.1 (List.append_eq_nil_iff.1 hnil).1).1
        exact absurd hhead (by decide)
      · refine ⟨below.dropWhile fun c => !endsLine (some c), ?_⟩
        rw [Text.strip?_eq_some_iff.1 hheading, ← append_of_dropLineBreak? hbreak]
        simp only [List.append_assoc, lineContent_append_dropWhile]
    · contradiction
  · contradiction

/-- Puts the statement on a line of its own below each stage constructor; the line break that ends the
    constructor line ends the inserted empty line. -/
def insertAlias (ending : LineEnding) (statement : Text) : Recognizer := fun before t =>
  (stageConstructor? before t).map fun found =>
    [.keep found, .swap [] (ending.text ++ statement ++ ending.text)]

theorem insertAlias_faithful (ending : LineEnding) (statement : Text) :
    (insertAlias ending statement).Faithful := by
  intro before t s hs
  obtain ⟨found, hfound, rfl⟩ := Option.map_eq_some_iff.1 hs
  simpa [Script.source, Edit.source] using prefix_of_stageConstructor? hfound

/-- The script of the alias rule. -/
def aliasScript (ending : LineEnding) (global : Text) (t : Text) : Script :=
  let statement := aliasStatement global
  let bound := (Recognizer.literal statement statement).script t
  if bound.swaps > 0 then bound else (insertAlias ending statement).script t

end CanvasExport.Rule
