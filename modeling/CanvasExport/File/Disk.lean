/-
Module: CanvasExport.File.Disk
Layer: File
Purpose: What a program needs of the world around it: to read a file, to write a file, and to know the time.
  Programs are written against these operations, so that the same program runs on a file tree as a value
  and on the real disk.
Main exports: Disk, FileTree.disk, Disk.readText
-/
import CanvasExport.File.Tree

namespace CanvasExport

structure Disk (m : Type → Type) where
  read : Path → m (Except FileError ByteArray)
  /-- Creates the file or replaces its content. -/
  write : Path → ByteArray → m (Except FileError Unit)
  /-- The present time as it is written in reports. -/
  clock : m Text

/-- A file tree as a disk, at a fixed time. A write that fails leaves the tree as it is. -/
def FileTree.disk (time : Text) : Disk (StateM FileTree) where
  read path := fun tree => (tree.read path, tree)
  write path content := fun tree =>
    match tree.write path content with
    | .ok written => (.ok (), written)
    | .error error => (.error error, tree)
  clock := fun tree => (time, tree)

namespace Disk

/-- The text of a file. -/
def readText {m : Type → Type} [Monad m] (disk : Disk m) (path : Path) : m (Except FileError Text) := do
  match ← disk.read path with
  | .error error => return .error error
  | .ok bytes =>
    match Text.ofUtf8? bytes with
    | some text => return .ok text
    | none => return .error .notText

end Disk

end CanvasExport
