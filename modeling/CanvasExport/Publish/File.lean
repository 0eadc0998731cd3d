/-
Module: CanvasExport.Publish.File
Layer: Publish
Purpose: Publishing a file in place. The extension is checked before the disk is touched, and nothing is
  written unless every rule has run; the text that the file held is kept beside it before the file is replaced.
Main exports: loadPalette, publishFile
-/
import CanvasExport.Digest.Sha256
import CanvasExport.File.Disk
import CanvasExport.Palette.Json
import CanvasExport.Publish.Pipeline
import CanvasExport.Publish.Report

namespace CanvasExport

variable {m : Type → Type} [Monad m]

/-- Reads a palette from a file. -/
def loadPalette (disk : Disk m) (path : Path) : m (Except PublishError Palette) := do
  match ← disk.readText path with
  | .error error => return .error (.file error)
  | .ok text => return (Palette.parse text).mapError .configuration

/-- Keeps the source at the sibling path if the options ask for it; gives back where it is kept. -/
def writeBackup (disk : Disk m) (options : Options) (path : Path) (source : Text) :
    m (Except FileError (Option Path)) := do
  if options.backup then
    return (← disk.write path.backup source.utf8).map fun _ => some path.backup
  else
    return .ok none

/-- Writes the published document and reports on it. -/
def writePublished (disk : Disk m) (pipeline : Pipeline) (path : Path) (source : Text)
    (document : PublishedDocument) : m (Logged PublishOutcome) := do
  match ← writeBackup disk pipeline.options path source with
  | .error error => return .of (.error (.file error))
  | .ok backup =>
    let kept := backup.toList.map Event.wroteBackup
    match ← disk.write path document.text.utf8 with
    | .error error => return ⟨kept, .error (.file error)⟩
    | .ok () =>
      let time ← disk.clock
      return ⟨kept ++ [.published], .ok (.published {
        path
        stem := path.stemText
        variant := pipeline.options.variant
        rules := document.rules
        backup
        inputSha256 := sha256Hex source.utf8
        outputSha256 := sha256Hex document.text.utf8
        publishedAt := time })⟩

/-- Publishes the text that a file holds. -/
def publishText (disk : Disk m) (pipeline : Pipeline) (path : Path) (source : Text) :
    m (Logged PublishOutcome) := do
  if isPublished source && !pipeline.options.force then
    match pipeline.options.onAlreadyPublished with
    | .fail => return .of (.error .alreadyPublished)
    | .skip => return ⟨[.alreadyPublished], .ok (.skipped path)⟩
  else
    let run := pipeline.publishDocument source path.stemText
    match run.outcome with
    | .error error => return ⟨run.events, .error error⟩
    | .ok document => return (← writePublished disk pipeline path source document).after run.events

/-- Publishes the file at a path. -/
def publishFile (disk : Disk m) (pipeline : Pipeline) (path : Path) : m (Logged PublishOutcome) := do
  if path.extension? ≠ some (Text.bytes "js".toList) then
    return .of (.error (.unsupportedFileType path))
  else
    match ← disk.readText path with
    | .error error => return .of (.error (.file error))
    | .ok source => publishText disk pipeline path source

end CanvasExport
