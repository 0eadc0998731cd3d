/-
Module: CanvasExport.Text.Shown
Layer: Text
Purpose: Texts shown inside messages. A shown text stands between double quotes on one line and hides
  nothing: characters that would not be seen are written by their code point.
Main exports: Text.shownChar, Text.shown
-/
import CanvasExport.Text.Escaped
import CanvasExport.Text.Invisible

namespace CanvasExport.Text

/-- How one character stands in a shown text. -/
def shownChar (c : Char) : Text :=
  match c with
  | '"' => ['\\', '"']
  | '\\' => ['\\', '\\']
  | '\n' => ['\\', 'n']
  | '\r' => ['\\', 'r']
  | '\t' => ['\\', 't']
  | '\x00' => ['\\', '0']
  | c =>
    if isInvisible c then
      ['\\', 'u', '\x7b'] ++ Nat.toDigits 16 c.toNat ++ ['\x7d']
    else
      [c]

/-- The text between quotes, with nothing hidden. -/
def shown (t : Text) : Text :=
  ['"'] ++ t.flatMap shownChar ++ ['"']

end CanvasExport.Text
