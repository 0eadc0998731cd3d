/-
Module: CanvasExport.Proofs.Rule.LineStart
Layer: Proofs
Purpose: Recognizers that act at the start of a line only. Within a line and at its break such a sweep keeps
  every character, so what it writes is decided at the line starts alone.
Main exports: Recognizer.AtLineStart, sweep_line_of_none, sweep_belowText, strip?_line
-/
import CanvasExport.Proofs.Rule.Blocks

namespace CanvasExport

/-- What stands in front of a line: nothing, or the line feed of the break above it. -/
def AtStart (before : Option Char) : Prop :=
  before = none ∨ before = some '\n'

/-- What stands in front of a place within a line. -/
def WithinLine (before : Option Char) : Prop :=
  ∃ c, before = some c ∧ endsLine (some c) = false

theorem startsLine_of_atStart {before : Option Char} (h : AtStart before) (next : Option Char) :
    startsLine before next = true := by
  rcases h with rfl | rfl <;> rfl

theorem startsLine_of_withinLine {before : Option Char} (h : WithinLine before) (next : Option Char) :
    startsLine before next = false := by
  obtain ⟨c, rfl, hc⟩ := h
  simp only [endsLine, Bool.or_eq_false_iff, beq_eq_false_iff_ne] at hc
  simp only [startsLine]
  split
  · contradiction
  · rename_i heq
    exact absurd (Option.some.inj heq) hc.1
  · rename_i heq
    exact absurd (Option.some.inj heq) hc.2
  · rfl

/-! ### Needles within a line -/

/-- The first character below a line, if any, is a line-ending character. -/
theorem belowText_eq_nil_or_cons (below : List (LineEnding × Text)) :
    Lines.belowText below = [] ∨
      ∃ c rest, endsLine (some c) = true ∧ Lines.belowText below = c :: rest := by
  cases below with
  | nil => exact .inl rfl
  | cons line below =>
      obtain ⟨ending, content⟩ := line
      cases ending with
      | lf => exact .inr ⟨_, _, rfl, rfl⟩
      | crlf => exact .inr ⟨_, _, rfl, rfl⟩

theorem endsLine_head_belowText (below : List (LineEnding × Text)) :
    endsLine (Lines.belowText below).head? = true := by
  rcases belowText_eq_nil_or_cons below with hnil | ⟨c, rest, hc, hcons⟩
  · rw [hnil]
    rfl
  · rw [hcons]
    exact hc

/-- A needle without line-ending characters that starts in a line ends in it. -/
theorem prefix_line_iff {needle : Text} (h : Unbroken needle) (content : Text)
    (below : List (LineEnding × Text)) :
    needle <+: content ++ Lines.belowText below ↔ needle <+: content := by
  rcases belowText_eq_nil_or_cons below with hnil | ⟨c, rest, hc, hcons⟩
  · rw [hnil, List.append_nil]
  · rw [hcons]
    exact prefix_append_cons_iff fun hmem => by simp [h c hmem] at hc

/-- What follows a needle is cut off at the same place, whatever stands behind a character that the needle does
    not hold. -/
theorem strip?_append_cons {needle : Text} {c : Char} (h : c ∉ needle) (t below : Text) :
    Text.strip? needle (t ++ c :: below) = (Text.strip? needle t).map (· ++ c :: below) := by
  cases hstrip : Text.strip? needle t with
  | some rest =>
      rw [Text.strip?_eq_some_iff.1 hstrip, List.append_assoc]
      exact Text.strip?_eq_some_iff.2 rfl
  | none =>
      cases hlong : Text.strip? needle (t ++ c :: below) with
      | none => rfl
      | some rest =>
          obtain ⟨after, hafter⟩ : needle <+: t :=
            (prefix_append_cons_iff h).1 ⟨rest, (Text.strip?_eq_some_iff.1 hlong).symm⟩
          rw [Text.strip?_eq_some_iff.2 hafter.symm] at hstrip
          contradiction

theorem strip?_line {needle : Text} (h : Unbroken needle) (content : Text)
    (below : List (LineEnding × Text)) :
    Text.strip? needle (content ++ Lines.belowText below)
      = (Text.strip? needle content).map (· ++ Lines.belowText below) := by
  rcases belowText_eq_nil_or_cons below with hnil | ⟨c, rest, hc, hcons⟩
  · simp [hnil]
  · rw [hcons]
    exact strip?_append_cons (fun hmem => by simp [h c hmem] at hc) content rest

/-- The line at the head of a text goes on behind what does not end it. -/
theorem lineContent_append {content : Text} (h : Unbroken content) (rest : Text) :
    lineContent (content ++ rest) = content ++ lineContent rest :=
  List.takeWhile_append_of_pos fun c hc => by simp [h c hc]

theorem lineContent_of_endsLine {t : Text} (h : endsLine t.head? = true) : lineContent t = [] := by
  cases t with
  | nil => rfl
  | cons c rest =>
      rw [List.head?_cons] at h
      rw [lineContent, List.takeWhile_cons, h]
      rfl

/-- The content of the line at the head of a text. -/
theorem lineContent_line {content : Text} (h : Unbroken content) (below : List (LineEnding × Text)) :
    lineContent (content ++ Lines.belowText below) = content := by
  rw [lineContent_append h, lineContent_of_endsLine (endsLine_head_belowText below), List.append_nil]

theorem dropLineBreak?_ending (ending : LineEnding) (t : Text) :
    dropLineBreak? (ending.text ++ t) = some (ending.text, t) := by
  cases ending <;> rfl

theorem dropLineBreak?_cons {c : Char} (h : endsLine (some c) = false) (t : Text) :
    dropLineBreak? (c :: t) = none := by
  rw [dropLineBreak?]
  · intro rest heq
    obtain rfl : c = '\n' := (List.cons.inj heq).1
    simp [endsLine] at h
  · intro rest heq
    obtain rfl : c = '\r' := (List.cons.inj heq).1
    simp [endsLine] at h

namespace Recognizer

/-- A recognizer that acts at the start of a line only, and not on a line break. -/
structure AtLineStart (r : Recognizer) : Prop where
  atStart : ∀ before t, startsLine before t.head? = false → r before t = none
  notAtBreak : ∀ before c t, endsLine (some c) = true → r before (c :: t) = none

variable {r : Recognizer}

/-- Within a line everything is kept. -/
theorem AtLineStart.sweep_within (h : r.AtLineStart) {before : Option Char} (hbefore : WithinLine before)
    {content : Text} (hcontent : Unbroken content) (t : Text) :
    sweep r 0 before (content ++ t)
      = Script.keeps content ++ sweep r 0 (content.getLast?.or before) t := by
  induction content generalizing before with
  | nil => rfl
  | cons c content ih =>
      rw [unbroken_cons] at hcontent
      have hnone : r before (c :: (content ++ t)) = none :=
        h.atStart _ _ (startsLine_of_withinLine hbefore _)
      have hwithin : WithinLine (some c) := ⟨c, rfl, hcontent.1⟩
      have hrest := ih hwithin hcontent.2
      rw [List.cons_append, sweep_of_none hnone, hrest, getLast?_cons_or]
      rfl

/-- At a line break everything is kept, and a line starts behind it. -/
theorem AtLineStart.sweep_ending (h : r.AtLineStart) (before : Option Char) (ending : LineEnding) (t : Text) :
    sweep r 0 before (ending.text ++ t) = Script.keeps ending.text ++ sweep r 0 (some '\n') t := by
  cases ending with
  | lf =>
      have hlf : r before ('\n' :: t) = none := h.notAtBreak _ _ _ rfl
      exact sweep_of_none hlf
  | crlf =>
      have hcr : r before ('\r' :: '\n' :: t) = none := h.notAtBreak _ _ _ rfl
      have hlf : r (some '\r') ('\n' :: t) = none := h.notAtBreak _ _ _ rfl
      exact (sweep_of_none hcr).trans (congrArg _ (sweep_of_none hlf))

/-- Below a line the sweep starts over at the next one, whatever stood in front. -/
theorem AtLineStart.sweep_belowText (h : r.AtLineStart) (before : Option Char)
    (below : List (LineEnding × Text)) :
    sweep r 0 before (Lines.belowText below) = r.script (Lines.belowText below) := by
  cases below with
  | nil => rfl
  | cons line below =>
      obtain ⟨ending, content⟩ := line
      rw [script, Lines.belowText_cons, h.sweep_ending, h.sweep_ending]

/-- A line on which nothing is recognized at its start is kept. -/
theorem AtLineStart.sweep_line_of_none (h : r.AtLineStart) {before : Option Char} {content : Text}
    (hcontent : Unbroken content) {below : List (LineEnding × Text)}
    (hnone : r before (content ++ Lines.belowText below) = none) :
    sweep r 0 before (content ++ Lines.belowText below)
      = Script.keeps content ++ r.script (Lines.belowText below) := by
  cases content with
  | nil => exact h.sweep_belowText before below
  | cons c content =>
      rw [unbroken_cons] at hcontent
      have hbefore : WithinLine (some c) := ⟨c, rfl, hcontent.1⟩
      have hwithin := h.sweep_within hbefore hcontent.2 (Lines.belowText below)
      have hnone : r before (c :: (content ++ Lines.belowText below)) = none := hnone
      rw [List.cons_append, sweep_of_none hnone, hwithin, h.sweep_belowText]
      rfl

end Recognizer

end CanvasExport
