/-
Module: CanvasExport.File.Tree
Layer: File
Purpose: File trees as values. A tree holds, below its top directory, the entry of each key, that is, of each
  list of names that leads to it. The top is the root of all paths, or a directory somewhere; then there are
  directories above it, but nothing else is known to be in them. A path is walked name by name, from the root
  or from the working directory, and the first fault on the way is the answer.
Main exports: Entry, FileTree, FileTree.get?, FileTree.set, FileTree.remove, FileTree.resolve,
  FileTree.read, FileTree.write, FileTree.addFile
-/
import CanvasExport.File.Error
import CanvasExport.File.Path
import CanvasExport.Text.Utf8

namespace CanvasExport

/-- The names that lead from the top directory to an entry. -/
abbrev Key := List Bytes

inductive Entry where
  | directory
  | file (content : ByteArray)

/-- The entries below a top directory. The first entry of a key is the one that counts. -/
structure FileTree where
  entries : List (Key × Entry)
  /-- Whether the top directory is the root of all paths. -/
  rooted : Bool
  /-- The directory that relative paths start from. -/
  workingDirectory : Key

/-- Where a walk has led to. -/
inductive Place where
  /-- Some directory that is not below the top. -/
  | outside
  /-- The top directory or an entry below it. -/
  | within (key : Key)
deriving DecidableEq, Repr, Inhabited

namespace FileTree

open CanvasExport.Path (slash point nameEnds)

/-- Nothing below a directory somewhere, which is the working directory. -/
def empty : FileTree :=
  ⟨[], false, []⟩

/-- The entry of a key; the top directory is always there. -/
def get? (tree : FileTree) (key : Key) : Option Entry :=
  if key.isEmpty then some .directory else tree.entries.lookup key

/-- The tree with an entry put in place of what the key held. -/
def set (tree : FileTree) (key : Key) (entry : Entry) : FileTree :=
  { tree with entries := (key, entry) :: tree.entries.filter fun old => old.1 ≠ key }

theorem get?_set_self (tree : FileTree) {key : Key} (entry : Entry) (h : key ≠ []) :
    (tree.set key entry).get? key = some entry := by
  simp [get?, set, h]

/-- Putting an entry changes no other key. -/
theorem get?_set_of_ne (tree : FileTree) {key other : Key} (entry : Entry) (h : other ≠ key) :
    (tree.set key entry).get? other = tree.get? other := by
  have hlookup : ∀ entries : List (Key × Entry),
      (entries.filter fun old => old.1 ≠ key).lookup other = entries.lookup other := by
    intro entries
    induction entries with
    | nil => rfl
    | cons old rest ih =>
      obtain ⟨name, held⟩ := old
      by_cases hold : name = key
      · have hne : (other == name) = false := by simpa [hold] using h
        rw [List.lookup_cons, hne, List.filter_cons_of_neg (by simpa using hold)]
        exact ih
      · rw [List.filter_cons_of_pos (by simpa using hold), List.lookup_cons, List.lookup_cons, ih]
  have hne : (other == key) = false := by simpa using h
  simp only [get?, set, List.lookup_cons, hne, hlookup]

/-- The tree without the key and everything below it. -/
def remove (tree : FileTree) (key : Key) : FileTree :=
  { tree with entries := tree.entries.filter fun old => !key.isPrefixOf old.1 }

/-- The tree with a directory at the key unless something is there. -/
def addDirectory (tree : FileTree) (key : Key) : FileTree :=
  match tree.get? key with
  | some _ => tree
  | none => tree.set key .directory

/-- The tree with directories at the key and above it. -/
def addDirectories (tree : FileTree) (key : Key) : FileTree :=
  (List.range (key.length + 1)).foldl (fun t n => t.addDirectory (key.take n)) tree

/-- What a place is. -/
def at? (tree : FileTree) : Place → Option Entry
  | .outside => some .directory
  | .within key => tree.get? key

/-- Where absolute paths start. -/
def root (tree : FileTree) : Place :=
  if tree.rooted then .within [] else .outside

/-- The directory above a place; the root is above itself. -/
def above (tree : FileTree) : Place → Place
  | .outside => .outside
  | .within [] => tree.root
  | .within (name :: names) => .within (name :: names).dropLast

/-- The place of a name in a directory. -/
def below (name : Bytes) : Place → Option Place
  | .outside => none
  | .within key => some (.within (key ++ [name]))

/-- The longest name of a file, in bytes. -/
def longestName : Nat := 255

/-- The longest path, in bytes. -/
def longestPath : Nat := 4095

/-- One step from a place that must be a directory. What the name leads to need not be there yet. -/
def step (tree : FileTree) (place : Place) (name : Bytes) : Except FileError Place :=
  match tree.at? place with
  | some .directory =>
    if name = [point] then
      .ok place
    else if name = [point, point] then
      .ok (tree.above place)
    else if longestName < name.length then
      .error .nameTooLong
    else
      match below name place with
      | some next => .ok next
      | none => .error .notFound
  | some (.file _) => .error .notDirectory
  | none => .error .notFound

/-- The path taken apart at its slashes, without empty parts. -/
def namesOf : Path → List Bytes
  | [] => []
  | b :: rest =>
    if b = slash then
      namesOf rest
    else if nameEnds rest then
      [b] :: namesOf rest
    else
      match namesOf rest with
      | [] => [[b]]
      | name :: names => (b :: name) :: names

/-- Where the walk along a path starts. -/
def start (tree : FileTree) (p : Path) : Place :=
  if p.head? = some slash then tree.root else .within tree.workingDirectory

/-- The place that a path leads to. The place itself need not be there, but every directory before it must,
    and a path that ends in a slash leads to a directory. -/
def resolve (tree : FileTree) (p : Path) : Except FileError Place := do
  if p.contains 0 then
    throw .nullInPath
  else if longestPath < p.length then
    throw .nameTooLong
  else if p.isEmpty then
    throw .notFound
  else
    let place ← (namesOf p).foldlM tree.step (tree.start p)
    if p.getLast? = some slash then
      match tree.at? place with
      | some .directory => return place
      | some (.file _) => throw .notDirectory
      | none => throw .notFound
    else
      return place

/-- The bytes of the file at a path. -/
def read (tree : FileTree) (p : Path) : Except FileError ByteArray := do
  let place ← tree.resolve p
  match tree.at? place with
  | some (.file content) => return content
  | some .directory => throw .isDirectory
  | none => throw .notFound

/-- The tree with a file of these bytes at a path; what the file held before is lost. -/
def write (tree : FileTree) (p : Path) (content : ByteArray) : Except FileError FileTree := do
  let place ← tree.resolve p
  match place, tree.at? place with
  | _, some .directory => throw .isDirectory
  | .within key, _ => return tree.set key (.file content)
  | .outside, _ => throw .notFound

/-- The key that a path names, taken as it is written: `..` undoes the name before it. -/
def keyOf (p : Path) : Key :=
  (namesOf p).foldl
    (fun key name =>
      if name = [point] then key else if name = [point, point] then key.dropLast else key ++ [name])
    []

/-- The tree with a file at a path and with the directories that lead to it. -/
def addFile (tree : FileTree) (p : Path) (content : ByteArray) : FileTree :=
  let key := keyOf p
  (tree.addDirectories key.dropLast).set key (.file content)

end FileTree

end CanvasExport
