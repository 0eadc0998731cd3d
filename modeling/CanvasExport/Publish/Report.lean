/-
Module: CanvasExport.Publish.Report
Layer: Publish
Purpose: The report of a published file, and its JSON form. A path that is not text has none, so a report that names
  such a path cannot be written.
Main exports: PublishReport, PublishOutcome, pathToJson, PublishOutcome.toJson
-/
import CanvasExport.File.Path
import CanvasExport.Json.Value
import CanvasExport.Options.Basic
import CanvasExport.Palette.Basic
import CanvasExport.Publish.Error
import CanvasExport.Rule.Basic

namespace CanvasExport

structure PublishReport where
  path : Path
  /-- The stem of the path as it is shown. -/
  stem : Text
  variant : Variant
  rules : List (RuleName × Nat)
  /-- Where the text that was replaced is kept, if it is. -/
  backup : Option Path
  inputSha256 : Text
  outputSha256 : Text
  publishedAt : Text
deriving DecidableEq, Repr, Inhabited

inductive PublishOutcome where
  | published (report : PublishReport)
  /-- The file carries the marker and was left alone. -/
  | skipped (path : Path)
deriving DecidableEq, Repr, Inhabited

/-- A rule with its number of replacements. -/
def ruleToJson (rule : RuleName × Nat) : Json :=
  .object [("rule".toList, .string rule.1.text), ("replacements".toList, .number rule.2)]

/-- A path as a JSON string, which it can be only if it is text. -/
def pathToJson (path : Path) : Except PublishError Json :=
  match Text.ofBytes? path with
  | some t => .ok (.string t)
  | none => .error .pathNotText

namespace PublishOutcome

/-- The JSON form of an outcome, if the paths that it names are text. -/
def toJson : PublishOutcome → Except PublishError Json
  | .published report => do
    let path ← pathToJson report.path
    let backup ← report.backup.elim (.ok .null) pathToJson
    return .object [
      ("status".toList, .string "published".toList),
      ("path".toList, path),
      ("fileStem".toList, .string report.stem),
      ("variant".toList, .string report.variant.text),
      ("rules".toList, .array (report.rules.map ruleToJson)),
      ("backup".toList, backup),
      ("inputSha256".toList, .string report.inputSha256),
      ("outputSha256".toList, .string report.outputSha256),
      ("engineVersion".toList, .string engineVersion),
      ("publishedAt".toList, .string report.publishedAt)]
  | .skipped path => do
    let path ← pathToJson path
    return .object [
      ("status".toList, .string "skipped".toList),
      ("path".toList, path)]

end PublishOutcome

end CanvasExport
