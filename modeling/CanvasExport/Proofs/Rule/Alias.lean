/-
Module: CanvasExport.Proofs.Rule.Alias
Layer: Proofs
Purpose: The alias rule line by line. The statement and an empty line are written below each constructor line
  that stands right below a heading line, and nowhere else.
Main exports: aliasBlocks, constructorCount, isConstructorLine_append_cons, insertAlias_lines
-/
import CanvasExport.Proofs.Rule.LineStart
import CanvasExport.Rule.Alias

namespace CanvasExport.Rule

/-- What is written for each line; `headed` says whether the line above is a stage heading. -/
def aliasBlocks (statement : Text) : (headed : Bool) → List Text → List Block
  | _, [] => []
  | headed, content :: rest =>
    (if headed && isConstructorLine content then ⟨content, [statement, []]⟩ else .single content)
      :: aliasBlocks statement (content == stageHeading) rest

/-- The number of constructor lines below a heading. -/
def constructorCount : (headed : Bool) → List Text → Nat
  | _, [] => 0
  | headed, content :: rest =>
    (if headed && isConstructorLine content then 1 else 0) + constructorCount (content == stageHeading) rest

theorem length_aliasBlocks (statement : Text) (headed : Bool) (contents : List Text) :
    (aliasBlocks statement headed contents).length = contents.length := by
  induction contents generalizing headed with
  | nil => rfl
  | cons content contents ih => simp [aliasBlocks, ih]

/-- Where there is no stage the alias rule keeps every line in its place. -/
theorem aliasBlocks_of_constructorCount (statement : Text) {headed : Bool} {contents : List Text}
    (h : constructorCount headed contents = 0) : aliasBlocks statement headed contents = contents.map .single := by
  induction contents generalizing headed with
  | nil => rfl
  | cons content contents ih =>
      rw [constructorCount, Nat.add_eq_zero_iff] at h
      have hline : ¬ (headed && isConstructorLine content) = true := by
        intro htrue
        simp [htrue] at h
      rw [aliasBlocks, if_neg hline, ih h.2, List.map_cons]

/-! ### Constructor lines -/

/-- Of all occurrences the cut takes the first. -/
theorem suffix_of_cut? {needle u v before after : Text}
    (h : Text.cut? needle (u ++ needle ++ v) = some (before, after)) : v <:+ after := by
  have hwhole := Text.eq_append_of_cut? h
  induction u generalizing before with
  | nil =>
      cases hhead : needle ++ v with
      | nil =>
          obtain ⟨rfl, rfl⟩ := List.append_eq_nil_iff.1 hhead
          exact List.nil_suffix
      | cons c rest =>
          have hstrip : Text.strip? needle (c :: rest) = some v := Text.strip?_eq_some_iff.2 hhead.symm
          rw [List.nil_append, hhead, Text.cut?, hstrip] at h
          obtain ⟨-, rfl⟩ : [] = before ∧ v = after := by simpa using h
          exact List.suffix_rfl
  | cons c u ih =>
      rw [List.cons_append, List.cons_append, Text.cut?] at h
      split at h
      · rename_i found hstrip
        obtain ⟨rfl, rfl⟩ : [] = before ∧ found = after := by simpa using h
        have hlength := congrArg List.length hwhole
        have hv : v <:+ [] ++ needle ++ found := hwhole ▸ List.suffix_append _ _
        apply List.suffix_of_suffix_length_le hv (List.suffix_append _ _)
        simp only [List.length_append, List.length_cons, List.length_nil] at hlength
        omega
      · obtain ⟨⟨early, late⟩, hcut, heq⟩ := Option.map_eq_some_iff.1 h
        obtain ⟨rfl, rfl⟩ : c :: early = before ∧ late = after := by simpa using heq
        exact ih hcut (Text.eq_append_of_cut? hcut)

/-- A constructor line has an opening with a parenthesis somewhere behind it. -/
theorem isConstructorLine_iff {line : Text} :
    isConstructorLine line = true ↔ ∃ u v, line = u ++ constructorOpening ++ v ∧ ')' ∈ v := by
  rw [isConstructorLine]
  constructor
  · intro h
    split at h
    · rename_i before after hcut
      exact ⟨before, after, Text.eq_append_of_cut? hcut, by simpa using h⟩
    · contradiction
  · rintro ⟨u, v, rfl, hmem⟩
    cases hcut : Text.cut? constructorOpening (u ++ constructorOpening ++ v) with
    | none => exact absurd ⟨u, v, rfl⟩ (Text.cut?_eq_none_iff.1 hcut)
    | some found =>
        obtain ⟨before, after⟩ := found
        simpa using (suffix_of_cut? hcut).subset hmem

theorem infix_of_isConstructorLine {line : Text} (h : isConstructorLine line = true) :
    constructorOpening <:+: line := by
  obtain ⟨u, v, rfl, -⟩ := isConstructorLine_iff.1 h
  exact ⟨u, v, rfl⟩

/-- A character that the opening does not hold cuts a line into two, each of which may be a constructor line;
    only the parenthesis may lie on the other side. -/
theorem isConstructorLine_append_cons {c : Char} (hc : c ∉ constructorOpening) (u v : Text) :
    isConstructorLine (u ++ c :: v) = true ↔ isConstructorLine u = true
      ∨ (constructorOpening <:+: u ∧ ')' ∈ c :: v) ∨ isConstructorLine v = true := by
  constructor
  · intro h
    obtain ⟨before, after, hwhole, hmem⟩ := isConstructorLine_iff.1 h
    rcases List.append_eq_append_iff.1 hwhole with ⟨gap, habove, hbelow⟩ | ⟨gap, habove, hafter⟩
    · cases gap with
      | nil =>
          have hu : constructorOpening <:+: u := ⟨before, [], by simpa using habove⟩
          exact .inr (.inl ⟨hu, by simpa [hbelow] using hmem⟩)
      | cons d gap =>
          obtain ⟨rfl, hv⟩ : c = d ∧ v = gap ++ after := by simpa using hbelow
          have hgap : constructorOpening <:+ gap :=
            (suffix_append_cons_iff hc).1 (habove ▸ List.suffix_append _ _)
          obtain ⟨front, hfront⟩ := hgap
          exact .inr (.inr (isConstructorLine_iff.2 ⟨front, after, by rw [hfront, hv], hmem⟩))
    · have hu : constructorOpening <:+: u := ⟨before, gap, habove.symm⟩
      rw [hafter, List.mem_append] at hmem
      exact hmem.imp (fun hgap => isConstructorLine_iff.2 ⟨before, gap, habove, hgap⟩) fun hbelow => .inl ⟨hu, hbelow⟩
  · rintro (h | ⟨⟨before, after, rfl⟩, hmem⟩ | h)
    · obtain ⟨before, after, rfl, hmem⟩ := isConstructorLine_iff.1 h
      exact isConstructorLine_iff.2 ⟨before, after ++ c :: v, by simp, List.mem_append_left _ hmem⟩
    · exact isConstructorLine_iff.2 ⟨before, after ++ c :: v, by simp, List.mem_append_right _ hmem⟩
    · obtain ⟨before, after, rfl, hmem⟩ := isConstructorLine_iff.1 h
      exact isConstructorLine_iff.2 ⟨u ++ c :: before, after, by simp, hmem⟩

/-! ### Headings -/

theorem unbroken_stageHeading : Unbroken stageHeading := by
  decide

theorem stageHeading_ne_nil : stageHeading ≠ [] := by
  decide

/-! ### Where a stage constructor is recognized -/

/-- A heading line and the line below it. -/
theorem stageConstructor?_heading {before : Option Char} (hbefore : AtStart before) (ending : LineEnding)
    {content : Text} (hcontent : Unbroken content) (below : List (LineEnding × Text)) :
    stageConstructor? before (stageHeading ++ Lines.belowText ((ending, content) :: below))
      = if isConstructorLine content then some (stageHeading ++ ending.text ++ content) else none := by
  have hheading : Text.strip? stageHeading (stageHeading ++ Lines.belowText ((ending, content) :: below))
      = some (ending.text ++ (content ++ Lines.belowText below)) := Text.strip?_eq_some_iff.2 rfl
  rw [stageConstructor?, if_pos (startsLine_of_atStart hbefore _), hheading]
  simp [dropLineBreak?_ending, lineContent_line hcontent]

/-- A line that is not a heading, or a heading without a line below it, starts no stage. -/
theorem stageConstructor?_eq_none {before : Option Char} {content : Text} (hcontent : Unbroken content)
    {below : List (LineEnding × Text)} (h : content ≠ stageHeading ∨ below = []) :
    stageConstructor? before (content ++ Lines.belowText below) = none := by
  rw [stageConstructor?]
  split
  · rw [strip?_line unbroken_stageHeading]
    cases hstrip : Text.strip? stageHeading content with
    | none => rfl
    | some rest =>
        rw [Text.strip?_eq_some_iff] at hstrip
        cases rest with
        | nil =>
            have hbelow : below = [] := h.resolve_left fun hne => hne (by simpa using hstrip)
            rw [hbelow]
            rfl
        | cons c rest =>
            rw [hstrip, unbroken_append, unbroken_cons] at hcontent
            simp [dropLineBreak?_cons hcontent.2.1]
  · rfl

/-- A constructor line is no heading. -/
theorem ne_stageHeading_of_constructor {content : Text} (h : isConstructorLine content = true) :
    content ≠ stageHeading := by
  rintro rfl
  exact absurd h (by decide)

theorem insertAlias_atLineStart (ending : LineEnding) (statement : Text) :
    (insertAlias ending statement).AtLineStart where
  atStart before t h := by simp [insertAlias, stageConstructor?, h]
  notAtBreak before c t h := by
    have hhead : Text.strip? stageHeading (c :: t) = none := by
      cases hstrip : Text.strip? stageHeading (c :: t) with
      | none => rfl
      | some rest =>
          obtain rfl : c = '/' := (List.cons.inj (Text.strip?_eq_some_iff.1 hstrip)).1
          exact absurd h (by decide)
    simp [insertAlias, stageConstructor?, hhead]

/-! ### The rewritten lines -/

theorem insertAlias_belowText (ending : LineEnding) (statement : Text) {before : Option Char}
    (hbefore : AtStart before) {content : Text} (hcontent : Unbroken content)
    {below : List (LineEnding × Text)} (hbelow : Lines.UnbrokenBelow below) :
    Script.result (sweep (insertAlias ending statement) 0 before (content ++ Lines.belowText below))
        = content ++ Lines.belowText (Lines.writeBelow ending below
          (aliasBlocks statement (content == stageHeading) (below.map Prod.snd)))
      ∧ Script.swaps (sweep (insertAlias ending statement) 0 before (content ++ Lines.belowText below))
        = constructorCount (content == stageHeading) (below.map Prod.snd) := by
  have hstart := insertAlias_atLineStart ending statement
  induction below generalizing content before with
  | nil =>
      have hnone : insertAlias ending statement before (content ++ Lines.belowText []) = none := by
        rw [insertAlias, stageConstructor?_eq_none hcontent (.inr rfl)]
        rfl
      rw [hstart.sweep_line_of_none hcontent hnone]
      simp [Recognizer.script, sweep, Lines.writeBelow, constructorCount]
  | cons line below ih =>
      obtain ⟨lead, next⟩ := line
      rw [Lines.unbrokenBelow_cons] at hbelow
      have hafter : AtStart (some '\n') := .inr rfl
      have hnext := ih hafter hbelow.1 hbelow.2
      by_cases hstage : content = stageHeading ∧ isConstructorLine next = true
      · obtain ⟨rfl, hconstructor⟩ := hstage
        -- The constructor line is read with its heading, so the sweep goes on below it.
        have hhere : insertAlias ending statement before
            (stageHeading ++ Lines.belowText ((lead, next) :: below))
            = some [.keep (stageHeading ++ lead.text ++ next),
              .swap [] (ending.text ++ statement ++ ending.text)] := by
          rw [insertAlias, stageConstructor?_heading hbefore lead hbelow.1, if_pos hconstructor]
          rfl
        have hnone : insertAlias ending statement (some '\n') (next ++ Lines.belowText below) = none := by
          rw [insertAlias, stageConstructor?_eq_none hbelow.1 (.inl (ne_stageHeading_of_constructor hconstructor))]
          rfl
        rw [hstart.sweep_line_of_none hbelow.1 hnone] at hnext
        obtain ⟨hresult, hswaps⟩ := hnext
        rw [Script.result_append, Script.result_keeps, List.append_cancel_left_eq] at hresult
        rw [Script.swaps_append, Script.swaps_keeps, Nat.zero_add] at hswaps
        have hsource : Script.source [.keep (stageHeading ++ lead.text ++ next),
            .swap [] (ending.text ++ statement ++ ending.text)] = stageHeading ++ lead.text ++ next := by
          simp [Edit.source]
        have hne : stageHeading ++ lead.text ++ next ≠ [] := by
          simp [stageHeading_ne_nil]
        have hwhole : stageHeading ++ Lines.belowText ((lead, next) :: below)
            = stageHeading ++ lead.text ++ next ++ Lines.belowText below := by
          simp
        rw [sweep_of_some hhere hsource hne hwhole, hstart.sweep_belowText]
        simp [Edit.result, hresult, hswaps, aliasBlocks, constructorCount, hconstructor, Lines.writeBelow,
          Lines.belowText_append]
        omega
      · have hnone : insertAlias ending statement before
            (content ++ Lines.belowText ((lead, next) :: below)) = none := by
          rw [insertAlias]
          by_cases hheading : content = stageHeading
          · rw [hheading, stageConstructor?_heading hbefore lead hbelow.1,
              if_neg fun hconstructor => hstage ⟨hheading, hconstructor⟩]
            rfl
          · rw [stageConstructor?_eq_none hcontent (.inl hheading)]
            rfl
        have hblock : (content == stageHeading && isConstructorLine next) = false := by
          simpa using fun heq => by simpa using fun hconstructor => hstage ⟨heq, hconstructor⟩
        rw [hstart.sweep_line_of_none hcontent hnone, Recognizer.script, Lines.belowText_cons,
          hstart.sweep_ending]
        simp [hnext, aliasBlocks, constructorCount, hblock, Lines.writeBelow, Block.single]

/-- Inserting the alias rewrites the lines of a text by blocks. -/
theorem insertAlias_lines (ending : LineEnding) (statement : Text) {ls : Lines} (h : ls.Unbroken) :
    Script.result ((insertAlias ending statement).script ls.text)
        = (ls.write ending (aliasBlocks statement false ls.contents)).text
      ∧ Script.swaps ((insertAlias ending statement).script ls.text)
        = constructorCount false ls.contents := by
  rw [Lines.unbroken_iff] at h
  have hfirst : AtStart none := .inl rfl
  have hlines := insertAlias_belowText ending statement hfirst h.1 h.2
  constructor
  · rw [Recognizer.script, Lines.text, hlines.1]
    rfl
  · rw [Recognizer.script, Lines.text, hlines.2]
    simp [Lines.contents, constructorCount]

end CanvasExport.Rule
