/-
Module: CanvasExport.File.Path
Layer: File
Purpose: Paths, which are bytes and need not be text. The last component of a path is its file name if it names
  something, that is, if it is not `..`; slashes and `.` components behind it and beside it do not count, except
  that a leading `.` is a component of its own. The name splits at its last point into stem and extension.
Main exports: Path, Path.fileName?, Path.stem, Path.stemText, Path.extension?, Path.withFileName, Path.backup
-/
import CanvasExport.Text.Bytes

namespace CanvasExport

/-- A path as it is written. -/
abbrev Path := Bytes

namespace Path

/-- The byte between the names along a path. -/
def slash : UInt8 := 0x2F

/-- The byte of the names that stand for directories, and between stem and extension. -/
def point : UInt8 := 0x2E

/-- Whether a name ends in front of these bytes. -/
def nameEnds : Bytes → Bool
  | [] => true
  | b :: _ => b = slash

theorem point_ne_slash : point ≠ slash := by decide

@[simp] theorem nameEnds_cons {b : UInt8} {rest : Bytes} : nameEnds (b :: rest) = true ↔ b = slash := by
  simp [nameEnds]

/-- The length of the part that is never trimmed: the root slash, or a leading `.` component. -/
def leadLength : Path → Nat
  | [] => 0
  | b :: rest => if b = slash ∨ b = point ∧ nameEnds rest then 1 else 0

/-- A reversed path body without the slashes and `.` components at its end. -/
def trimBack : Bytes → Bytes
  | [] => []
  | b :: rest => if b = slash ∨ b = point ∧ nameEnds rest then trimBack rest else b :: rest

/-- The body of the path, reversed and trimmed. -/
def body (p : Path) : Bytes :=
  trimBack (p.drop p.leadLength).reverse

/-- The last component of the body, if it has one that is not `..`. -/
def fileName? (p : Path) : Option Bytes :=
  let name := (p.body.takeWhile (· != slash)).reverse
  if name = [] ∨ name = [point, point] then none else some name

/-- The path up to its file name, without the separators in between. -/
def parent (p : Path) : Path :=
  let behindName := (p.body.dropWhile (· != slash)).drop 1
  p.take p.leadLength ++ (trimBack behindName).reverse

/-- A name split at its last point. A point at the very front is part of the stem. -/
def splitName (name : Bytes) : Bytes × Option Bytes :=
  match name.reverse.dropWhile (· != point) with
  | [] | [_] => (name, none)
  | _ :: stem => (stem.reverse, some (name.reverse.takeWhile (· != point)).reverse)

/-- The name without its extension; empty for a path without a name. -/
def stem (p : Path) : Bytes :=
  match p.fileName? with
  | some name => (splitName name).1
  | none => []

/-- The stem as it is shown. -/
def stemText (p : Path) : Text :=
  Text.lossy p.stem

/-- The extension of the name, without its point. -/
def extension? (p : Path) : Option Bytes := do
  (splitName (← p.fileName?)).2

/-- A path followed by a name. -/
def join (directory : Path) (name : Bytes) : Path :=
  if directory = [] ∨ directory.getLast? = some slash then directory ++ name
  else directory ++ slash :: name

/-- The path with another file name; a path without a name is extended by it. -/
def withFileName (p : Path) (name : Bytes) : Path :=
  match p.fileName? with
  | some _ => join p.parent name
  | none => join p name

/-- The sibling that keeps what a published file held before. It is named after the stem as it is shown. -/
def backup (p : Path) : Path :=
  p.withFileName (Text.bytes (p.stemText ++ ".orig.js".toList))

end Path

end CanvasExport
