/-
Module: CanvasExport.Document.Marker
Layer: Document
Purpose: The publication marker, the only state that a document carries: a document that starts or ends with
  it has been published. Stripping takes the marker and the line break next to it from either end.
Main exports: marker, isPublished, stripMarker
-/
import CanvasExport.Text.Line

namespace CanvasExport

/-- The marker line of a published document. -/
def marker : Text := "// Published.".toList

def isPublished (document : Text) : Bool :=
  marker.isPrefixOf document || marker.isSuffixOf document

/-- The text without the line break at its head, if it has one. -/
def dropFirstBreak (t : Text) : Text :=
  match dropLineBreak? t with
  | some (_, rest) => rest
  | none => t

/-- The text without the line break at its end, if it has one. -/
def dropLastBreak (t : Text) : Text :=
  match Text.stripEnd? LineEnding.crlf.text t with
  | some rest => rest
  | none => (Text.stripEnd? LineEnding.lf.text t).getD t

/-- The document without a marker at its head and without one at the end of what then remains. -/
def stripMarker (document : Text) : Text :=
  let rest := match Text.strip? marker document with
    | some below => dropFirstBreak below
    | none => document
  match Text.stripEnd? marker rest with
  | some above => dropLastBreak above
  | none => rest

end CanvasExport
