/-
Module: CanvasExport.Version.Basic
Layer: Version
Purpose: Versions and their order. The three numbers count first; a pre-release comes before its release;
  build metadata counts last, so a version with metadata comes after the one without. The order is total
  on versions.
Main exports: Version, Version.compare
-/
import CanvasExport.Text.Order

namespace CanvasExport

/-- A version with its pre-release and build identifiers. -/
structure Version where
  major : Nat
  minor : Nat
  patch : Nat
  pre : List Text
  build : List Text
deriving DecidableEq, Repr, Inhabited

namespace Version

def isNumeric (identifier : Text) : Bool :=
  identifier.all Char.isDigit

/-- Texts by their first differing character. -/
def compareTexts (a b : Text) : Ordering :=
  if a = b then .eq else if a.precedes b then .lt else .gt

/-- Pre-release identifiers: numbers come before names and compare by value, which without leading zeros is
    by length first. -/
def comparePre (a b : Text) : Ordering :=
  match isNumeric a, isNumeric b with
  | false, true => .gt
  | true, false => .lt
  | false, false => compareTexts a b
  | true, true => (compare a.length b.length).then (compareTexts a b)

/-- Build identifiers: numbers come before names and compare by value, then by their leading zeros. -/
def compareBuild (a b : Text) : Ordering :=
  match isNumeric a, isNumeric b with
  | false, true => .gt
  | true, false => .lt
  | false, false => compareTexts a b
  | true, true =>
    let trimmed := fun t : Text => t.dropWhile (· == '0')
    (compare (trimmed a).length (trimmed b).length).then
      ((compareTexts (trimmed a) (trimmed b)).then (compare a.length b.length))

/-- Lists of identifiers by the first that differs; a list comes after what it continues. -/
def compareIdentifiers (order : Text → Text → Ordering) : List Text → List Text → Ordering
  | [], [] => .eq
  | [], _ :: _ => .lt
  | _ :: _, [] => .gt
  | a :: as, b :: bs => (order a b).then (compareIdentifiers order as bs)

/-- Pre-releases in front of the release, which has no identifiers. -/
def comparePreRelease (a b : List Text) : Ordering :=
  match a, b with
  | [], [] => .eq
  | [], _ :: _ => .gt
  | _ :: _, [] => .lt
  | a, b => compareIdentifiers comparePre a b

/-- The order of versions. -/
def compare (a b : Version) : Ordering :=
  (Ord.compare a.major b.major).then <|
    (Ord.compare a.minor b.minor).then <|
      (Ord.compare a.patch b.patch).then <|
        (comparePreRelease a.pre b.pre).then <|
          compareIdentifiers compareBuild a.build b.build

end Version

end CanvasExport
