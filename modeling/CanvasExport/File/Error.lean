/-
Module: CanvasExport.File.Error
Layer: File
Purpose: Why a file cannot be read or written.
Main exports: FileError, FileError.message
-/
import CanvasExport.Text.Basic

namespace CanvasExport

inductive FileError where
  | notFound
  | notDirectory
  | isDirectory
  | nameTooLong
  /-- The file holds bytes that are not UTF-8. -/
  | notText
  /-- The path holds a null byte, which no file name can. -/
  | nullInPath
  /-- Any other answer of the operating system, in its own words. -/
  | other (reason : Text)
deriving DecidableEq, Repr, Inhabited

namespace FileError

def message : FileError → Text
  | .notFound => "No such file or directory (os error 2)".toList
  | .notDirectory => "Not a directory (os error 20)".toList
  | .isDirectory => "Is a directory (os error 21)".toList
  | .nameTooLong => "File name too long (os error 36)".toList
  | .notText => "stream did not contain valid UTF-8".toList
  | .nullInPath => "file name contained an unexpected NUL byte".toList
  | .other reason => reason

end FileError

end CanvasExport
