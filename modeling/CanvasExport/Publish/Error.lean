/-
Module: CanvasExport.Publish.Error
Layer: Publish
Purpose: Why a document or a file is not published.
Main exports: PublishError, PublishError.message
-/
import CanvasExport.File.Error
import CanvasExport.File.Path
import CanvasExport.Json.Fault
import CanvasExport.Palette.Basic
import CanvasExport.Rule.Basic

namespace CanvasExport

inductive PublishError where
  | noFileSpecified
  | unsupportedFileType (path : Path)
  | alreadyPublished
  | ruleUnmatched (rule : RuleName)
  /-- The palette needs a later engine than this one. -/
  | engineTooOld (wanted : Text)
  | invalidVersion (version : Text)
  | invalidPalette (problems : List PaletteProblem)
  | configuration (error : Json.Error)
  /-- A report names a path that is not text, so it has no JSON form. -/
  | pathNotText
  | file (error : FileError)
deriving DecidableEq, Repr, Inhabited

namespace PublishError

def message : PublishError → Text
  | .noFileSpecified => "No file specified.".toList
  | .unsupportedFileType path => "File must be of type '.js': ".toList ++ Text.lossy path
  | .alreadyPublished => "File already marked as published.".toList
  | .ruleUnmatched rule => "Rule '".toList ++ rule.text ++ "' found nothing to rewrite".toList
  | .engineTooOld wanted =>
    "Palette config requires engine >= ".toList ++ wanted ++ ", current is ".toList ++ engineVersion
  | .invalidVersion version =>
    "Invalid palette config: Invalid engineMinVersion '".toList ++ version ++ "'".toList
  | .invalidPalette problems =>
    "Invalid palette config: ".toList ++ Text.joinWith "; ".toList (problems.map PaletteProblem.message)
  | .configuration error => "Serialization error: ".toList ++ error.message
  | .pathNotText => "Serialization error: path contains invalid UTF-8 characters".toList
  | .file error => error.message

end PublishError

end CanvasExport
