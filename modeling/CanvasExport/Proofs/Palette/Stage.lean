/-
Module: CanvasExport.Proofs.Palette.Stage
Layer: Proofs
Purpose: The alias rule as a scan over pairs of lines. Where the statement is missing it goes below each line that
  opens a stage constructor right under a heading, as many times as there are such pairs; once it is there, every
  occurrence is counted and nothing is written.
Main exports: Lines.textWith, OpensStage, StageAt, text_write_aliasBlocks, constructorCount_eq_countP,
  apply_paletteAlias_of_occurs, paletteAlias_linePairs
-/
import CanvasExport.Proofs.Rule.Lines
import CanvasExport.Proofs.Text.Occurrences

namespace CanvasExport

/-! ### Texts between the lines -/

namespace Lines

/-- The text of lines with an insertion behind the content of each. -/
def belowTextWith (insertion : Nat → Text) : List (LineEnding × Text) → Text
  | [] => []
  | (ending, content) :: rest =>
    ending.text ++ (content ++ (insertion 0 ++ belowTextWith (fun k => insertion (k + 1)) rest))

/-- The text with `insertion k` right behind the content of its line `k`, in front of the break that ends it. -/
def textWith (ls : Lines) (insertion : Nat → Text) : Text :=
  ls.top ++ (insertion 0 ++ belowTextWith (fun k => insertion (k + 1)) ls.below)

end Lines

namespace Rule

/-! ### Stages -/

/-- A line that opens the parameter list of a stage constructor and has a closing parenthesis behind that. -/
def OpensStage (line : Text) : Prop :=
  ∃ above behind, line = above ++ constructorOpening ++ behind ∧ ')' ∈ behind

instance (line : Text) : Decidable (OpensStage line) :=
  decidable_of_iff (isConstructorLine line = true) isConstructorLine_iff

/-- Line `k` is a stage heading, and the line below it opens a stage. -/
def StageAt (contents : List Text) (k : Nat) : Prop :=
  contents[k]? = some stageHeading ∧ ∃ line ∈ contents[k + 1]?, OpensStage line

instance (contents : List Text) (k : Nat) : Decidable (StageAt contents k) :=
  inferInstanceAs (Decidable (_ ∧ _))

theorem stageAt_cons_zero {heading line : Text} {contents : List Text} :
    StageAt (heading :: line :: contents) 0 ↔ (heading == stageHeading && isConstructorLine line) = true := by
  simp [StageAt, OpensStage, isConstructorLine_iff]

theorem stageAt_cons_succ {line : Text} {contents : List Text} {k : Nat} :
    StageAt (line :: contents) (k + 1) ↔ StageAt contents k :=
  Iff.rfl

/-- There is no stage on the last line. -/
theorem not_stageAt_singleton (line : Text) : ¬ StageAt [line] 0 := by
  simp [StageAt]

/-- What is inserted behind line `k`: the statement on a line of its own, if that line opens a stage. -/
def stageInsertion (inserted : Text) (contents : List Text) : Nat → Text
  | 0 => []
  | k + 1 => if StageAt contents k then inserted else []

/-! ### Blocks as insertions -/

theorem belowText_writeBelow_aliasBlocks (ending : LineEnding) (statement heading : Text)
    (below : List (LineEnding × Text)) :
    Lines.belowText (Lines.writeBelow ending below
        (aliasBlocks statement (heading == stageHeading) (below.map Prod.snd)))
      = Lines.belowTextWith (fun k => stageInsertion (ending.text ++ statement ++ ending.text)
          (heading :: below.map Prod.snd) (k + 1)) below := by
  induction below generalizing heading with
  | nil => rfl
  | cons line below ih =>
      obtain ⟨lead, content⟩ := line
      have hrest := ih content
      simp only [stageInsertion] at hrest
      simp only [List.map_cons, aliasBlocks, Lines.writeBelow, Lines.belowTextWith, stageInsertion, stageAt_cons_zero,
        stageAt_cons_succ, Lines.belowText_cons, Lines.belowText_append, hrest]
      split <;> simp [Block.single]

/-- What the rule writes is the text with the statement behind each constructor line. -/
theorem text_write_aliasBlocks (ending : LineEnding) (statement : Text) (ls : Lines) :
    (ls.write ending (aliasBlocks statement false ls.contents)).text
      = ls.textWith (stageInsertion (ending.text ++ statement ++ ending.text) ls.contents) := by
  have hbelow := belowText_writeBelow_aliasBlocks ending statement ls.top ls.below
  simp [Lines.contents, aliasBlocks, Lines.write, Lines.text, Lines.textWith, Block.single, hbelow, stageInsertion]

theorem constructorCount_eq_countP (heading : Text) (contents : List Text) :
    constructorCount (heading == stageHeading) contents
      = (List.range (heading :: contents).length).countP fun k => StageAt (heading :: contents) k := by
  induction contents generalizing heading with
  | nil => simp [constructorCount, not_stageAt_singleton]
  | cons line contents ih =>
      -- The pair at the top, and the pairs below it by their places from the second line on.
      have hsplit : ((List.range (heading :: line :: contents).length).countP
            fun k => StageAt (heading :: line :: contents) k)
          = (if StageAt (heading :: line :: contents) 0 then 1 else 0)
            + (List.range (line :: contents).length).countP fun k => StageAt (line :: contents) k := by
        rw [List.length_cons, List.range_succ_eq_map, List.countP_cons, List.countP_map]
        simp only [decide_eq_true_eq, Function.comp_def, stageAt_cons_succ, Nat.add_comm]
      rw [constructorCount, ih, hsplit]
      simp only [stageAt_cons_zero]

/-! ### The statement -/

theorem selfDisjoint_aliasStatement {global : Text} (h : isIdentifier global = true) :
    Text.SelfDisjoint (aliasStatement global) := by
  refine Text.selfDisjoint_of_last (c := ';') fun hmem => ?_
  have hglobal : ';' ∉ global := (writtenIn_of_isIdentifier h).not_mem (by decide)
  exact (List.mem_append.1 hmem).elim (by decide) hglobal

section Global

variable {global : Text} (h : isIdentifier global = true)

include h

/-- A text that holds the statement is left as it is, and each occurrence counts. -/
theorem apply_paletteAlias_of_occurs (context : DocumentContext) {t : Text} (ht : aliasStatement global <:+: t) :
    (Rule.paletteAlias global).apply context t = ⟨t, Text.occurrences (aliasStatement global) t⟩ := by
  have hne := aliasStatement_ne_nil global
  have hfound := (Recognizer.swaps_literal_pos (aliasStatement global) hne t).2 ht
  have hself : ((Recognizer.literal (aliasStatement global) (aliasStatement global)).script t).result = t :=
    Recognizer.view_result_literal id hne (fun _ _ => rfl) t
  rw [apply, aliasScript, if_pos hfound, Rewrite.ofScript, hself,
    Recognizer.swaps_literal _ hne (selfDisjoint_aliasStatement h)]

omit h in
/-- Where the statement is missing it is written below each stage heading's constructor line. -/
theorem apply_paletteAlias_of_not_occurs (context : DocumentContext) {ls : Lines} (hls : ls.Unbroken)
    (ht : ¬ aliasStatement global <:+: ls.text) :
    (Rule.paletteAlias global).apply context ls.text
      = ⟨(ls.write context.ending (aliasBlocks (aliasStatement global) false ls.contents)).text,
        constructorCount false ls.contents⟩ := by
  have hnone := mt (Recognizer.swaps_literal_pos (aliasStatement global) (aliasStatement_ne_nil global) ls.text).1 ht
  obtain ⟨hresult, hswaps⟩ := insertAlias_lines context.ending (aliasStatement global) hls
  rw [apply, aliasScript, if_neg hnone, Rewrite.ofScript, hresult, hswaps]

/-- Of the written lines exactly the inserted ones hold the statement. -/
theorem totalOf_aliasBlocks {contents : List Text} (hclear : ∀ content ∈ contents, ¬ aliasStatement global <:+: content)
    (headed : Bool) :
    totalOf (fun content => ((Recognizer.literal (aliasStatement global) (aliasStatement global)).script content).swaps)
        ((aliasBlocks (aliasStatement global) headed contents).flatMap Block.lines)
      = constructorCount headed contents := by
  have hne := aliasStatement_ne_nil global
  have hself := selfDisjoint_aliasStatement h
  have hone : Text.occurrences (aliasStatement global) (aliasStatement global) = 1 := by
    simpa [Text.occurrences] using Text.occurrences_self_append hself hne []
  simp only [Recognizer.swaps_literal _ hne hself]
  induction contents generalizing headed with
  | nil => rfl
  | cons content contents ih =>
      rw [List.forall_mem_cons] at hclear
      have hcontent : Text.occurrences (aliasStatement global) content = 0 := by
        rw [← Recognizer.swaps_literal (aliasStatement global) hne hself]
        exact Nat.eq_zero_of_not_pos (mt (Recognizer.swaps_literal_pos _ hne content).1 hclear.1)
      have hrest := ih hclear.2 (content == stageHeading)
      rw [aliasBlocks, constructorCount, List.flatMap_cons]
      split
      · simp [Block.lines, hcontent, hone, hrest, Text.occurrences]
      · simp [hcontent, hrest]

/-- The text that the rule has written it leaves as it is, and counts what it has counted. -/
theorem apply_paletteAlias_again (context later : DocumentContext) {ls : Lines} (hls : ls.Unbroken) :
    let once := (Rule.paletteAlias global).apply context ls.text
    (Rule.paletteAlias global).apply later once.text = once := by
  intro once
  by_cases hfound : aliasStatement global <:+: ls.text
  case pos =>
    have honce : once = ⟨ls.text, Text.occurrences (aliasStatement global) ls.text⟩ :=
      apply_paletteAlias_of_occurs h context hfound
    rw [honce]
    exact apply_paletteAlias_of_occurs h later hfound
  case neg =>
    have honce : once = _ := apply_paletteAlias_of_not_occurs context hls hfound
    rw [honce]
    by_cases hstage : constructorCount false ls.contents = 0
    · -- There is nothing to write it below, whatever the later ending.
      have hsame := apply_paletteAlias_of_not_occurs later hls hfound
      simpa only [aliasBlocks_of_constructorCount _ hstage, Lines.write_singles] using hsame
    · have hne := aliasStatement_ne_nil global
      have hlength := length_aliasBlocks (aliasStatement global) false ls.contents
      have hwritten := unbroken_aliasBlocks (unbroken_aliasStatement h) hls false
      have hcount := (literal_self_lines hne (unbroken_aliasStatement h)
        (ls.write context.ending (aliasBlocks (aliasStatement global) false ls.contents)) .lf).2
      have hclear : ∀ content ∈ ls.contents, ¬ aliasStatement global <:+: content := by
        intro content hmem hoccurs
        have hany := List.any_eq_true.2 ⟨content, hmem, Text.occursIn_iff.2 hoccurs⟩
        have hpos := (swaps_literal_self_pos hne (unbroken_aliasStatement h) ls).2 hany
        exact hfound ((Recognizer.swaps_literal_pos _ hne ls.text).1 hpos)
      rw [Lines.contents_write hlength, totalOf_aliasBlocks h hclear] at hcount
      have hoccurs := (Recognizer.swaps_literal_pos (aliasStatement global) hne _).1
        (hcount ▸ Nat.pos_of_ne_zero hstage)
      rw [apply_paletteAlias_of_occurs h later hoccurs,
        ← Recognizer.swaps_literal (aliasStatement global) hne (selfDisjoint_aliasStatement h), hcount]

end Global

end Rule

open Rule

/-- In a text with whole line breaks the alias rule counts the statement where it stands. Where it stands nowhere, the
    rule writes it behind each line that opens a stage right under a heading, and nothing else; and then it finds
    what it has written, whatever the ending of lines. -/
theorem paletteAlias_linePairs {global : Text} (h : isIdentifier global = true) (stem : Text) {t : Text}
    (ht : Tidy t = true) :
    let rule := Rule.paletteAlias global
    let context := DocumentContext.ofDocument stem t
    let statement := aliasStatement global
    let inserted := context.ending.text ++ statement ++ context.ending.text
    let ls := Lines.ofText t
    let once := rule.apply context t
    (statement <:+: t → once = ⟨t, Text.occurrences statement t⟩)
      ∧ (¬ statement <:+: t → once = ⟨ls.textWith (stageInsertion inserted ls.contents),
        (List.range ls.contents.length).countP fun k => StageAt ls.contents k⟩)
      ∧ ∀ later : DocumentContext, rule.apply later once.text = once := by
  intro rule context statement inserted ls once
  have hls : ls.Unbroken := Lines.unbroken_ofText ht
  have htext : ls.text = t := Lines.text_ofText t
  refine ⟨apply_paletteAlias_of_occurs h context, fun hmissing => ?_, fun later => ?_⟩
  · have hwritten := apply_paletteAlias_of_not_occurs context hls (htext.symm ▸ hmissing)
    have hcount : constructorCount false ls.contents
        = (List.range ls.contents.length).countP fun k => StageAt ls.contents k := by
      have hbelow := constructorCount_eq_countP ls.top (ls.below.map Prod.snd)
      rw [← Lines.contents] at hbelow
      rw [← hbelow, Lines.contents, constructorCount]
      simp
    rw [htext, text_write_aliasBlocks, hcount] at hwritten
    exact hwritten
  · have hagain := apply_paletteAlias_again h context later hls
    rwa [htext] at hagain

/-- Two stages, the second under two headings and without a break at its end. -/
def pairedStages : Text :=
  "// stage content:\r\na = function(mode,startPosition,loop) { (b) }\r\n".toList
    ++ "// stage content:\r\n// stage content:\r\nc = function(mode,startPosition,loop,d) {}".toList

/-- The statement goes below each of the two constructor lines. -/
theorem paletteAlias_linePairs_pairedStages :
    let rule := Rule.paletteAlias "avatarPalette".toList
    let context := DocumentContext.ofDocument "walk".toList pairedStages
    let statement := aliasStatement "avatarPalette".toList
    let inserted := context.ending.text ++ statement ++ context.ending.text
    let ls := Lines.ofText pairedStages
    let once := rule.apply context pairedStages
    isIdentifier "avatarPalette".toList = true ∧ Tidy pairedStages = true
      ∧ once = ⟨"// stage content:\r\na = function(mode,startPosition,loop) { (b) }".toList
        ++ "\r\nthis.assetPalette = avatarPalette;\r\n\r\n".toList
        ++ "// stage content:\r\n// stage content:\r\nc = function(mode,startPosition,loop,d) {}".toList
        ++ "\r\nthis.assetPalette = avatarPalette;\r\n".toList, 2⟩
      ∧ (statement <:+: pairedStages → once = ⟨pairedStages, Text.occurrences statement pairedStages⟩)
      ∧ (¬ statement <:+: pairedStages → once = ⟨ls.textWith (stageInsertion inserted ls.contents),
        (List.range ls.contents.length).countP fun k => StageAt ls.contents k⟩)
      ∧ ∀ later : DocumentContext, rule.apply later once.text = once :=
  ⟨by decide, by decide +kernel, by decide +kernel,
    paletteAlias_linePairs (by decide) "walk".toList (by decide +kernel)⟩

end CanvasExport
