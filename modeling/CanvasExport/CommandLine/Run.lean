/-
Module: CanvasExport.CommandLine.Run
Layer: CommandLine
Purpose: The program as a function of its arguments and of a disk: an exit code, what is printed, and the
  warnings and the failure that go to the error output.
Main exports: CommandLine.Result, CommandLine.outcomeText, CommandLine.run
-/
import CanvasExport.CommandLine.Help
import CanvasExport.CommandLine.Request
import CanvasExport.Publish.File

namespace CanvasExport.CommandLine

structure Result where
  exitCode : Nat
  output : Text
  /-- The log lines of the warnings. -/
  warnings : List Text
  /-- What went wrong, for exit code one. -/
  failure : Option PublishError

/-- A result that only prints. -/
def Result.printing (output : Text) : Result :=
  ⟨0, output, [], none⟩

/-- What follows the failure on the error output. -/
def failureHelp : Text :=
  shortHelp ++ ['\n']

/-- The options that a request comes to. -/
def Request.options (r : Request) : Options :=
  { Options.standard with
    variant := r.variant.getD .aliased
    force := r.force
    backup := !r.noBackup
    remapAssetPath := !r.keepAssetPath
    onUnmatched := r.onUnmatched.getD .ignore }

/-- What is printed for a file that was published or skipped. An outcome that has no JSON form cannot be printed in
    it, although the file has been dealt with. -/
def outcomeText (json : Bool) (outcome : PublishOutcome) : Except PublishError Text :=
  if json then
    outcome.toJson.map fun value => value.indented 0 ++ ['\n']
  else
    match outcome with
    | .published _ => return "Published!\n".toList
    | .skipped path => return "Skipped ".toList ++ Text.lossy path ++ ": already published.\n".toList

variable {m : Type → Type} [Monad m]

/-- The palette of a request: the one that it names, or the built-in one. -/
def Request.loadPalette (r : Request) (disk : Disk m) : m (Except PublishError Palette) :=
  match r.palette with
  | some path => CanvasExport.loadPalette disk path
  | none => return .ok .standard

/-- Publishes the file of a request. A missing file name is noticed before the palette is read. -/
def Request.publish (r : Request) (disk : Disk m) : m (Logged PublishOutcome) := do
  match r.file with
  | none => return .of (.error .noFileSpecified)
  | some file =>
    match (← r.loadPalette disk).bind fun palette => Pipeline.create palette r.options with
    | .error error => return .of (.error error)
    | .ok pipeline => publishFile disk pipeline file

/-- What publishing the file of a request comes to. -/
def Request.result (r : Request) (logged : Logged PublishOutcome) : Result :=
  let warnings := logged.events.filterMap Event.warning?
  match logged.outcome.bind (outcomeText r.json) with
  | .ok output => ⟨0, output, warnings, none⟩
  | .error error => ⟨1, [], warnings, some error⟩

/-- Runs the program. -/
def run (disk : Disk m) (arguments : List Bytes) : m Result := do
  match parse arguments with
  | .shortHelp => return .printing shortHelp
  | .longHelp => return .printing longHelp
  | .version => return .printing versionText
  | .usage => return ⟨2, [], [], none⟩
  | .run request => return request.result (← request.publish disk)

end CanvasExport.CommandLine
