/-
Module: CanvasExport.Proofs.Rule.Lookup
Layer: Proofs
Purpose: The lookup rule line by line. An empty line and the line of the entry are written above each line that
  is exactly the wiring line, and nowhere else.
Main exports: lookupBlock, wiringCount, insertLookup_lines
-/
import CanvasExport.Proofs.Rule.LineStart
import CanvasExport.Rule.Lookup

namespace CanvasExport.Rule

/-- What is written for one line. -/
def lookupBlock (entry content : Text) : Block :=
  if content = wiringLine then ⟨[], [lookupGuard ++ entry, wiringLine]⟩ else .single content

/-- Whether a line is counted. -/
def wiringCount (content : Text) : Nat :=
  if content = wiringLine then 1 else 0

theorem unbroken_wiringLine : Unbroken wiringLine := by
  decide

theorem wiringLine_ne_nil : wiringLine ≠ [] := by
  decide

theorem unbroken_lookupGuard : Unbroken lookupGuard := by
  decide

/-- An escape stays on its line. -/
theorem unbroken_escapedChar (c : Char) : Unbroken (Text.escapedChar c) := by
  fun_cases Text.escapedChar c with
  | case1 | case2 | case3 | case4 | case5 | case6 | case7 => decide
  | case8 c _ _ _ _ _ _ _ hcontrol =>
      have hdigit : ∀ n, n < 16 → endsLine (some (Text.hexDigit n)) = false := by decide
      have hhigh := hdigit (c.toNat / 16) (by omega)
      have hlow := hdigit (c.toNat % 16) (by omega)
      have hescape : Unbroken ['\\', 'u', '0', '0'] := by decide
      exact unbroken_append.2 ⟨hescape, unbroken_cons.2 ⟨hhigh, unbroken_cons.2 ⟨hlow, unbroken_nil⟩⟩⟩
  | case9 c _ _ hlf hcr =>
      have hplain : endsLine (some c) = false := by
        simpa [endsLine] using And.intro hlf hcr
      exact unbroken_cons.2 ⟨hplain, unbroken_nil⟩

/-- No stem breaks the line of its entry, since its literal escapes line breaks. -/
theorem unbroken_lookupEntry (stem : Text) : Unbroken (lookupEntry stem) := by
  have hescaped : Unbroken (Text.escaped stem) := by
    intro c hmem
    obtain ⟨d, -, hd⟩ := List.mem_flatMap.1 hmem
    exact unbroken_escapedChar d c hd
  have hquote : Unbroken ['"'] := by decide
  have hopening : Unbroken "FILE_TO_ID[".toList := by decide
  have hclosing : Unbroken "] = lib.properties.id;".toList := by decide
  exact unbroken_append.2 ⟨unbroken_append.2 ⟨hopening, unbroken_append.2 ⟨unbroken_append.2 ⟨hquote, hescaped⟩,
    hquote⟩⟩, hclosing⟩

/-! ### Where a wiring line is recognized -/

theorem insertLookup_wiring (ending : LineEnding) (entry : Text) {before : Option Char}
    (hbefore : AtStart before) (below : List (LineEnding × Text)) :
    insertLookup ending entry before (wiringLine ++ Lines.belowText below)
      = some [.swap [] (ending.text ++ lookupGuard ++ entry ++ ending.text), .keep wiringLine] := by
  have hstrip : Text.strip? wiringLine (wiringLine ++ Lines.belowText below)
      = some (Lines.belowText below) := Text.strip?_eq_some_iff.2 rfl
  rw [insertLookup, if_pos (startsLine_of_atStart hbefore _), hstrip]
  simp [endsLine_head_belowText]

theorem insertLookup_eq_none (ending : LineEnding) (entry : Text) (before : Option Char) {content : Text}
    (hcontent : Unbroken content) (below : List (LineEnding × Text)) (h : content ≠ wiringLine) :
    insertLookup ending entry before (content ++ Lines.belowText below) = none := by
  rw [insertLookup]
  split
  · rw [strip?_line unbroken_wiringLine]
    cases hstrip : Text.strip? wiringLine content with
    | none => rfl
    | some rest =>
        rw [Text.strip?_eq_some_iff] at hstrip
        cases rest with
        | nil => exact absurd (by simpa using hstrip) h
        | cons c rest =>
            rw [hstrip, unbroken_append, unbroken_cons] at hcontent
            simp [hcontent.2.1]
  · rfl

theorem insertLookup_atLineStart (ending : LineEnding) (entry : Text) :
    (insertLookup ending entry).AtLineStart where
  atStart before t h := by simp [insertLookup, h]
  notAtBreak before c t h := by
    have hhead : Text.strip? wiringLine (c :: t) = none := by
      cases hstrip : Text.strip? wiringLine (c :: t) with
      | none => rfl
      | some rest =>
          obtain rfl : c = '\x7d' := (List.cons.inj (Text.strip?_eq_some_iff.1 hstrip)).1
          exact absurd h (by decide)
    simp [insertLookup, hhead]

/-! ### The rewritten lines -/

theorem insertLookup_belowText (ending : LineEnding) (entry : Text) {before : Option Char}
    (hbefore : AtStart before) {content : Text} (hcontent : Unbroken content)
    {below : List (LineEnding × Text)} (hbelow : Lines.UnbrokenBelow below) :
    Script.result (sweep (insertLookup ending entry) 0 before (content ++ Lines.belowText below))
        = (lookupBlock entry content).first ++ Lines.belowText
          (Lines.led ending (lookupBlock entry content).more
            ++ Lines.writeBelow ending below ((below.map Prod.snd).map (lookupBlock entry)))
      ∧ Script.swaps (sweep (insertLookup ending entry) 0 before (content ++ Lines.belowText below))
        = wiringCount content + totalOf wiringCount (below.map Prod.snd) := by
  have hstart := insertLookup_atLineStart ending entry
  -- The line itself, whichever it is, comes before what the sweep writes below it.
  have hline : Script.result (sweep (insertLookup ending entry) 0 before (content ++ Lines.belowText below))
        = (lookupBlock entry content).first ++ Lines.belowText
          (Lines.led ending (lookupBlock entry content).more)
          ++ Script.result ((insertLookup ending entry).script (Lines.belowText below))
      ∧ Script.swaps (sweep (insertLookup ending entry) 0 before (content ++ Lines.belowText below))
        = wiringCount content + Script.swaps ((insertLookup ending entry).script (Lines.belowText below)) := by
    by_cases hwiring : content = wiringLine
    · subst hwiring
      have hsource : Script.source [.swap [] (ending.text ++ lookupGuard ++ entry ++ ending.text),
          .keep wiringLine] = wiringLine := by
        simp [Edit.source]
      rw [sweep_of_some (insertLookup_wiring ending entry hbefore below) hsource wiringLine_ne_nil rfl,
        hstart.sweep_belowText]
      constructor
      · simp [Edit.result, lookupBlock]
      · simp [wiringCount, Nat.add_comm]
    · rw [hstart.sweep_line_of_none hcontent (insertLookup_eq_none ending entry before hcontent below hwiring)]
      simp [lookupBlock, wiringCount, hwiring, Block.single]
  rw [hline.1, hline.2]
  cases below with
  | nil => simp [Recognizer.script, sweep, Lines.writeBelow]
  | cons line below =>
      obtain ⟨lead, next⟩ := line
      rw [Lines.unbrokenBelow_cons] at hbelow
      have hnext : AtStart (some '\n') := .inr rfl
      obtain ⟨hresult, hswaps⟩ := insertLookup_belowText ending entry hnext hbelow.1 hbelow.2
      rw [Recognizer.script, Lines.belowText_cons, hstart.sweep_ending]
      simp [hresult, hswaps, Lines.writeBelow, Lines.belowText_append]

/-- Inserting the entry rewrites the lines of a text by blocks. -/
theorem insertLookup_lines (ending : LineEnding) (entry : Text) {ls : Lines} (h : ls.Unbroken) :
    Script.result ((insertLookup ending entry).script ls.text)
        = (ls.write ending (ls.contents.map (lookupBlock entry))).text
      ∧ Script.swaps ((insertLookup ending entry).script ls.text) = totalOf wiringCount ls.contents := by
  rw [Lines.unbroken_iff] at h
  have hfirst : AtStart none := .inl rfl
  exact insertLookup_belowText ending entry hfirst h.1 h.2

end CanvasExport.Rule
