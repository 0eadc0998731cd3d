/-
Module: CanvasExport.Text.Escaped
Layer: Text
Purpose: The string literal of a text, which JSON and script sources read alike: quotes and backslashes are
  escaped, control characters below the space are written by a short escape or by four hexadecimal digits,
  and every other character stands for itself.
Main exports: Text.hexValue?, Text.escapedChar, Text.escaped, Text.literal
-/
import CanvasExport.Text.Basic

namespace CanvasExport.Text

/-- The digit of a value below sixteen, in lower case. -/
def hexDigit (n : Nat) : Char :=
  Nat.digitChar n

/-- The value of a hexadecimal digit of either case. -/
def hexValue? (c : Char) : Option Nat :=
  if c.isDigit then some (c.toNat - '0'.toNat)
  else if 'a' ≤ c && c ≤ 'f' then some (c.toNat - 'a'.toNat + 10)
  else if 'A' ≤ c && c ≤ 'F' then some (c.toNat - 'A'.toNat + 10)
  else none

/-- How one character stands in a literal. -/
def escapedChar (c : Char) : Text :=
  match c with
  | '"' => ['\\', '"']
  | '\\' => ['\\', '\\']
  | '\n' => ['\\', 'n']
  | '\r' => ['\\', 'r']
  | '\t' => ['\\', 't']
  | '\x08' => ['\\', 'b']
  | '\x0c' => ['\\', 'f']
  | c =>
    if c.toNat < 0x20 then
      ['\\', 'u', '0', '0', hexDigit (c.toNat / 16), hexDigit (c.toNat % 16)]
    else
      [c]

/-- The text between the quotes of its literal. -/
def escaped (t : Text) : Text :=
  t.flatMap escapedChar

/-- The text as a string literal. -/
def literal (t : Text) : Text :=
  ['"'] ++ escaped t ++ ['"']

end CanvasExport.Text
