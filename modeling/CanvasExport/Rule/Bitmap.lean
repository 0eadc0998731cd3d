/-
Module: CanvasExport.Rule.Bitmap
Layer: Rule
Purpose: Cached bitmaps. An export refers to its bitmaps by paths that start with `images/` right after the
  opening quote; the simulation serves them from a directory of its own.
Main exports: remapBitmaps
-/
import CanvasExport.Text.Edit

namespace CanvasExport.Rule

/-- How a reference to a cached bitmap begins. -/
def bitmapOpening : Text := "\"images/".toList

/-- Points each reference at the given directory. -/
def remapBitmaps (directory : Text) : Recognizer :=
  Recognizer.literal bitmapOpening ('"' :: directory)

end CanvasExport.Rule
