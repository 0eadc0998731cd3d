/-
Module: CanvasExport.Rule.Registration
Layer: Rule
Purpose: Registration lines. A layer is put on the stage by a line that holds `addTween`; what a gate looks
  for is the nearest such line after a tag, through its last `addTween`. The functions here find it and give
  back the text in parts; the lemmas say that the parts make up the text that was searched.
Main exports: throughRegistration?, Registration, Registration.whole, nextRegistration?, lastInLine?,
  whole_of_nextRegistration?, whole_of_lastInLine?
-/
import CanvasExport.Text.Line

namespace CanvasExport.Rule

/-- The word that marks a registration line. -/
def registration : Text := "addTween".toList

/-- The head of the line through its last registration word, and everything after that. -/
def throughRegistration? : Text → Option (Text × Text)
  | [] => none
  | c :: rest =>
    match if c = '\n' then none else throughRegistration? rest with
    | some (head, after) => some (c :: head, after)
    | none => (Text.strip? registration (c :: rest)).map fun after => (registration, after)

theorem append_of_throughRegistration? {t head after : Text}
    (h : throughRegistration? t = some (head, after)) : head ++ after = t := by
  induction t generalizing head with
  | nil => simp [throughRegistration?] at h
  | cons c rest ih =>
    rw [throughRegistration?] at h
    split at h
    · rename_i found late hfound
      obtain ⟨rfl, rfl⟩ : c :: found = head ∧ late = after := by simpa using h
      split at hfound
      · contradiction
      · simpa using ih hfound
    · obtain ⟨late, hstrip, heq⟩ := Option.map_eq_some_iff.1 h
      obtain ⟨rfl, rfl⟩ : registration = head ∧ late = after := by simpa using heq
      exact (Text.strip?_eq_some_iff.1 hstrip).symm

/-- A registration line with the text that leads up to it. -/
structure Registration where
  /-- What stands before the line. -/
  gap : Text
  /-- The line through its last registration word. -/
  line : Text
  /-- Everything after that word. -/
  rest : Text
deriving DecidableEq, Repr, Inhabited

namespace Registration

/-- The text in which the line was found. -/
def whole (r : Registration) : Text :=
  r.gap ++ r.line ++ r.rest

/-- The registration line at the very head of a text. -/
def here? (t : Text) : Option Registration :=
  (throughRegistration? t).map fun (line, rest) => ⟨[], line, rest⟩

/-- The same line, found one character later. -/
def behind (c : Char) (r : Registration) : Registration :=
  { r with gap := c :: r.gap }

theorem whole_of_here? {t : Text} {r : Registration} (h : here? t = some r) : r.whole = t := by
  obtain ⟨⟨line, rest⟩, hthrough, rfl⟩ := Option.map_eq_some_iff.1 h
  simpa [whole] using append_of_throughRegistration? hthrough

@[simp] theorem whole_behind (c : Char) (r : Registration) : (r.behind c).whole = c :: r.whole := by
  simp [whole, behind]

end Registration

/-- The nearest registration line that starts in the text; `before` is the character in front of it. A line
    may start at a lone carriage return, but it reaches to the next line feed. -/
def nextRegistration? (before : Char) : Text → Option Registration
  | [] => none
  | c :: rest =>
    match if startsLine (some before) (some c) then Registration.here? (c :: rest) else none with
    | some found => some found
    | none => (nextRegistration? c rest).map (Registration.behind c)

theorem whole_of_nextRegistration? {before : Char} {t : Text} {r : Registration}
    (h : nextRegistration? before t = some r) : r.whole = t := by
  induction t generalizing before r with
  | nil => simp [nextRegistration?] at h
  | cons c rest ih =>
    rw [nextRegistration?] at h
    split at h
    · rename_i found hfound
      obtain rfl : found = r := by simpa using h
      split at hfound
      · exact Registration.whole_of_here? hfound
      · contradiction
    · obtain ⟨found, hnext, rfl⟩ := Option.map_eq_some_iff.1 h
      simp [ih hnext]

/-- The last registration line that starts before the line feed, at a lone carriage return. -/
def lastInLine? (before : Char) : Text → Option Registration
  | [] => none
  | c :: rest =>
    match if c = '\n' then none else lastInLine? c rest with
    | some found => some (found.behind c)
    | none => if startsLine (some before) (some c) then Registration.here? (c :: rest) else none

theorem whole_of_lastInLine? {before : Char} {t : Text} {r : Registration}
    (h : lastInLine? before t = some r) : r.whole = t := by
  induction t generalizing before r with
  | nil => simp [lastInLine?] at h
  | cons c rest ih =>
    rw [lastInLine?] at h
    split at h
    · rename_i found hfound
      obtain rfl : found.behind c = r := by simpa using h
      split at hfound
      · contradiction
      · simp [ih hfound]
    · split at h
      · exact Registration.whole_of_here? h
      · contradiction

end CanvasExport.Rule
