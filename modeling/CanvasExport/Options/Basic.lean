/-
Module: CanvasExport.Options.Basic
Layer: Options
Purpose: Publishing options: which dialect of export is rewritten, and what happens to published files, to
  rules that find nothing and to the text that a file held before.
Main exports: Variant, Variant.cacheDirectory, UnmatchedPolicy, PublishedPolicy, Options, Options.standard
-/
import CanvasExport.Text.Basic

namespace CanvasExport

/-- The dialect of an export. -/
inductive Variant where
  /-- One palette, bound inside the stage. -/
  | aliased
  /-- A table of palettes, addressed by numbers inside the colors. -/
  | indexed
deriving DecidableEq, Repr, Inhabited

namespace Variant

def text : Variant → Text
  | .aliased => "aliased".toList
  | .indexed => "indexed".toList

/-- Where the simulation serves cached bitmaps from. -/
def cacheDirectory : Variant → Text
  | .aliased => "assets/cached/".toList
  | .indexed => "assets/cache/".toList

/-- The variants by name. -/
def choices : List (Text × Variant) :=
  [.aliased, .indexed].map fun v => (text v, v)

end Variant

/-- What happens when a rule finds nothing to rewrite. -/
inductive UnmatchedPolicy where
  | ignore
  | warn
  | fail
deriving DecidableEq, Repr, Inhabited

namespace UnmatchedPolicy

def text : UnmatchedPolicy → Text
  | .ignore => "ignore".toList
  | .warn => "warn".toList
  | .fail => "fail".toList

/-- The policies by name. -/
def choices : List (Text × UnmatchedPolicy) :=
  [.ignore, .warn, .fail].map fun p => (text p, p)

end UnmatchedPolicy

/-- What happens to a file that carries the marker already. -/
inductive PublishedPolicy where
  | fail
  | skip
deriving DecidableEq, Repr, Inhabited

namespace PublishedPolicy

def text : PublishedPolicy → Text
  | .fail => "fail".toList
  | .skip => "skip".toList

/-- The policies by name. -/
def choices : List (Text × PublishedPolicy) :=
  [.fail, .skip].map fun p => (text p, p)

end PublishedPolicy

structure Options where
  variant : Variant
  /-- Whether a document is published even if it carries the marker. -/
  force : Bool
  /-- Whether the text that a file held is kept beside it. -/
  backup : Bool
  /-- Whether cached bitmaps are remapped. -/
  remapAssetPath : Bool
  onUnmatched : UnmatchedPolicy
  onAlreadyPublished : PublishedPolicy
deriving DecidableEq, Repr, Inhabited

/-- The options that stand in for fields that a configuration leaves out. -/
def Options.standard : Options where
  variant := .aliased
  force := false
  backup := true
  remapAssetPath := true
  onUnmatched := .ignore
  onAlreadyPublished := .fail

end CanvasExport
