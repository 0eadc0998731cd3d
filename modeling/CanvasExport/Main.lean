/-
Module: CanvasExport.Main
Layer: CommandLine
Purpose: The program on the real disk. Everything is decided by `CommandLine.run`; this module reads and writes
  files for it, asks for the time and prints.
Main exports: main
-/
import CanvasExport.CommandLine.Run
import CanvasExport.CommandLine.Timestamp
import Std.Time.DateTime.Timestamp

namespace CanvasExport.CommandLine

/-- The operating system's number for an error. -/
def systemCode : IO.Error → UInt32
  | .alreadyExists _ code _ | .invalidArgument _ code _ | .permissionDenied _ code _
  | .resourceExhausted _ code _ | .inappropriateType _ code _ | .noSuchThing _ code _ => code
  | .interrupted _ code _ | .noFileOrDirectory _ code _ => code
  | .otherError code _ | .resourceBusy code _ | .resourceVanished code _ | .unsupportedOperation code _
  | .hardwareFault code _ | .unsatisfiedConstraints code _ | .illegalOperation code _
  | .protocolError code _ | .timeExpired code _ => code
  | .unexpectedEof | .userError _ => 0

/-- An error of the operating system as a file error. Some calls hand the number over with its sign
    turned. -/
def fileErrorOf (error : IO.Error) : FileError :=
  let code := systemCode error
  match if code < 0x80000000 then code else 0 - code with
  | 2 => .notFound
  | 20 => .notDirectory
  | 21 => .isDirectory
  | 36 => .nameTooLong
  | _ => .other (toString error).toList

/-- The present moment. -/
def presentTime : IO Text := do
  let moment ← Std.Time.Timestamp.now
  return timestampText moment.val.second.val.toNat moment.val.nano.val.toNat

/-- An operation on the file at a path. The operations of this system take paths that are text only. -/
def atPath {α : Type} (path : Path) (operation : String → IO α) : IO (Except FileError α) := do
  if path.contains 0 then
    return .error .nullInPath
  match Text.ofBytes? path with
  | none => return .error (.other "the path is not UTF-8".toList)
  | some text =>
    try
      return .ok (← operation (String.ofList text))
    catch error =>
      return .error (fileErrorOf error)

/-- The real disk. -/
def realDisk : Disk IO where
  read path := atPath path fun name => IO.FS.readBinFile name
  write path content := atPath path fun name => IO.FS.writeBinFile name content
  clock := presentTime

/-- Prints what belongs on the error output. -/
def printDiagnostics (result : Result) : IO Unit := do
  for warning in result.warnings do
    IO.eprintln (String.ofList ((← presentTime) ++ "  WARN ".toList ++ warning))
  if result.exitCode = 2 then
    IO.eprintln "error: the arguments are not understood\n\nUsage: animate-publish [OPTIONS] [FILE]"
  match result.failure with
  | some error =>
    IO.eprintln (String.ofList ("\nError: ".toList ++ error.message ++ ['\n']))
    IO.eprint (String.ofList failureHelp)
  | none => pure ()

end CanvasExport.CommandLine

def main (arguments : List String) : IO UInt32 := do
  let result ← CanvasExport.CommandLine.run CanvasExport.CommandLine.realDisk
    (arguments.map fun argument => CanvasExport.Text.bytes argument.toList)
  CanvasExport.CommandLine.printDiagnostics result
  IO.print (String.ofList result.output)
  return UInt32.ofNat result.exitCode
