/-
Module: CanvasExport.Text.Line
Layer: Text
Purpose: Line endings and line boundaries. A line ends at a line feed, at a carriage return followed by one,
  or at a lone carriage return; the boundary tests look at the two neighbouring characters only, so a
  scanner can ask them at any position.
Main exports: LineEnding, LineEnding.ofText, startsLine, endsLine, dropLineBreak?, lineContent
-/
import CanvasExport.Text.Basic

namespace CanvasExport

/-- The line ending that inserted lines are given. -/
inductive LineEnding where
  | lf
  | crlf
deriving DecidableEq, Repr, Inhabited

namespace LineEnding

def text : LineEnding → Text
  | .lf => ['\n']
  | .crlf => ['\r', '\n']

/-- One carriage return with a line feed makes the whole text a CRLF text: exports do not mix endings on
    purpose, and an inserted line must not introduce the other kind. -/
def ofText (t : Text) : LineEnding :=
  if Text.occursIn ['\r', '\n'] t then .crlf else .lf

end LineEnding

/-- Whether a line starts between two neighbouring characters; `none` stands for an end of the text. A
    carriage return that belongs to a CRLF pair ends no line by itself. -/
def startsLine (before next : Option Char) : Bool :=
  match before with
  | none => true
  | some '\n' => true
  | some '\r' => next != some '\n'
  | some _ => false

/-- Whether a line ends before `next`, at a place that does not follow a carriage return. -/
def endsLine (next : Option Char) : Bool :=
  match next with
  | none => true
  | some c => c == '\n' || c == '\r'

/-- What follows the line break at the head of the text. A carriage return counts only with its line
    feed. -/
def dropLineBreak? : Text → Option (Text × Text)
  | '\n' :: rest => some (['\n'], rest)
  | '\r' :: '\n' :: rest => some (['\r', '\n'], rest)
  | _ => none

theorem append_of_dropLineBreak? {t lineBreak rest : Text} (h : dropLineBreak? t = some (lineBreak, rest)) :
    lineBreak ++ rest = t := by
  revert h
  fun_cases dropLineBreak? t with
  | case1 below =>
    intro h
    obtain ⟨rfl, rfl⟩ : ['\n'] = lineBreak ∧ below = rest := by simpa [dropLineBreak?] using h
    rfl
  | case2 below =>
    intro h
    obtain ⟨rfl, rfl⟩ : ['\r', '\n'] = lineBreak ∧ below = rest := by simpa [dropLineBreak?] using h
    rfl
  | case3 => intro h; contradiction

/-- The part of the text before any line-ending character. -/
def lineContent (t : Text) : Text :=
  t.takeWhile fun c => !endsLine (some c)

theorem lineContent_append_dropWhile (t : Text) :
    lineContent t ++ t.dropWhile (fun c => !endsLine (some c)) = t :=
  List.takeWhile_append_dropWhile

end CanvasExport
