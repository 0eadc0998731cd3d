/-
Module: CanvasExport.Proofs.Rule.Lines
Layer: Proofs
Purpose: Every rule as a rewriting of lines. A rule reads the contents of all lines and writes a block for each;
  breaks play no part in it. From this one equation follow what a rule does under another line ending, what it
  leaves to the rules after it, and what it leaves of the lines that it read.
Main exports: Rule.Sound, Rule.blocks, Rule.count, Rule.apply_lines, Rule.lines, Rule.length_blocks,
  Rule.unbroken_lines
-/
import CanvasExport.Proofs.Rule.Gates
import CanvasExport.Proofs.Rule.Lookup
import CanvasExport.Rule.Basic

namespace CanvasExport

/-! ### Passes over lines -/

/-- A pass that puts one line in place of each. -/
structure LinePass (pass : Text → Script) (lines : List Text → List Text) (count : List Text → Nat) : Prop where
  length : ∀ contents, (lines contents).length = contents.length
  unbroken : ∀ contents, (∀ content ∈ contents, Unbroken content) → ∀ content ∈ lines contents, Unbroken content
  result : ∀ (ls : Lines) (ending : LineEnding), ls.Unbroken →
    (pass ls.text).result = (ls.write ending ((lines ls.contents).map .single)).text
  swaps : ∀ ls : Lines, ls.Unbroken → (pass ls.text).swaps = count ls.contents

/-- A recognizer that stays within lines makes such a pass. -/
theorem Recognizer.Inline.linePass {r : Recognizer} (h : r.Inline)
    (hunbroken : ∀ content, Unbroken content → Unbroken (r.script content).result) :
    LinePass r.script (fun contents => contents.map fun content => (r.script content).result)
      (totalOf fun content => (r.script content).swaps) where
  length contents := by simp
  unbroken contents hcontents content hmem := by
    obtain ⟨before, hbefore, rfl⟩ := List.mem_map.1 hmem
    exact hunbroken before (hcontents before hbefore)
  result ls ending _ := by
    rw [(h.script_lines ending ls).1, List.map_map]
    rfl
  swaps ls _ := (h.script_lines .lf ls).2

/-- A pass of a gate is one. -/
theorem Rule.LayerGate.linePass (gate : LayerGate) {selection : Text}
    (hselection : WrittenIn argumentChar selection) :
    LinePass (gate.recognizer selection).script (gate.guardedLines selection none)
      (gate.guardCount selection none) where
  length contents := gate.length_guardedLines selection none contents
  unbroken contents hcontents content hmem := by
    have hguarded := gate.forall₂_guardedLines (gate.waits_none selection) contents
    obtain ⟨before, hbefore, hline⟩ := Rule.mem_of_forall₂ hguarded hmem
    exact Rule.unbroken_guarded hselection hline (hcontents before hbefore)
  result ls ending hls := (gate.script_lines selection ending hls).1
  swaps ls hls := (gate.script_lines selection .lf hls).2

namespace Rewrite

theorem foldl_andThen (t : Text) (n : Nat) (scripts : List (Text → Script)) :
    scripts.foldl andThen ⟨t, n⟩ = ⟨(passes t scripts).text, n + (passes t scripts).replacements⟩ := by
  induction scripts generalizing t n with
  | nil => rfl
  | cons script scripts ih =>
      rw [passes, List.foldl_cons, List.foldl_cons, andThen, andThen, ih, ih _ (0 + _)]
      simp [Nat.add_assoc]

theorem passes_cons (t : Text) (script : Text → Script) (scripts : List (Text → Script)) :
    passes t (script :: scripts)
      = ⟨(passes (script t).result scripts).text,
        (script t).swaps + (passes (script t).result scripts).replacements⟩ := by
  rw [passes, List.foldl_cons, andThen, foldl_andThen]
  simp [ofScript]

variable {α : Type} (lines : α → List Text → List Text) (count : α → List Text → Nat)

/-- The replacements of several passes, each counted on the lines that the previous one wrote. -/
def passCount : List α → List Text → Nat
  | [], _ => 0
  | a :: as, contents => count a contents + passCount as (lines a contents)

variable {lines count}

theorem length_passes {pass : α → Text → Script} {as : List α}
    (h : ∀ a ∈ as, LinePass (pass a) (lines a) (count a)) (contents : List Text) :
    (as.foldl (fun contents a => lines a contents) contents).length = contents.length := by
  induction as generalizing contents with
  | nil => rfl
  | cons a as ih =>
      rw [List.forall_mem_cons] at h
      rw [List.foldl_cons, ih h.2, h.1.length]

theorem unbroken_passes {pass : α → Text → Script} {as : List α}
    (h : ∀ a ∈ as, LinePass (pass a) (lines a) (count a)) {contents : List Text}
    (hcontents : ∀ content ∈ contents, Unbroken content) :
    ∀ content ∈ as.foldl (fun contents a => lines a contents) contents, Unbroken content := by
  induction as generalizing contents with
  | nil => exact hcontents
  | cons a as ih =>
      rw [List.forall_mem_cons] at h
      exact ih h.2 (h.1.unbroken contents hcontents)

/-- Passes over lines, one after the other, put one line in place of each. -/
theorem passes_lines {pass : α → Text → Script} {as : List α}
    (h : ∀ a ∈ as, LinePass (pass a) (lines a) (count a)) {ls : Lines} (hls : ls.Unbroken) (ending : LineEnding) :
    passes ls.text (as.map pass)
      = ⟨(ls.write ending ((as.foldl (fun contents a => lines a contents) ls.contents).map .single)).text,
        passCount lines count as ls.contents⟩ := by
  induction as generalizing ls with
  | nil => rw [List.map_nil, List.foldl_nil, Lines.write_singles]; rfl
  | cons a as ih =>
      rw [List.forall_mem_cons] at h
      have hlength : ((lines a ls.contents).map Block.single).length = ls.contents.length := by
        rw [List.length_map, h.1.length]
      have hcontents : (ls.write ending ((lines a ls.contents).map .single)).contents = lines a ls.contents := by
        rw [Lines.contents_write hlength, Block.flatMap_lines_single]
      have hunbroken : (ls.write ending ((lines a ls.contents).map .single)).Unbroken := by
        apply Lines.unbroken_write hlength
        rw [Block.flatMap_lines_single]
        exact h.1.unbroken ls.contents hls
      have hrest := ih h.2 hunbroken
      have hne : (as.foldl (fun contents a => lines a contents) (lines a ls.contents)).map Block.single ≠ [] := by
        have htotal := (length_passes h.2 (lines a ls.contents)).trans (h.1.length ls.contents)
        intro hnil
        rw [List.map_eq_nil_iff.1 hnil] at htotal
        simp [Lines.contents] at htotal
      rw [hcontents, Lines.write_write ending (h.1.length ls.contents) hne] at hrest
      rw [List.map_cons, passes_cons, h.1.result ls ending hls, h.1.swaps ls hls, hrest]
      rfl

end Rewrite

/-! ### Rules -/

namespace Rule

/-- What the parameters of a rule have to be for its lines to come out as such. -/
def Sound : Rule → Prop
  | .paletteAlias global => isIdentifier global = true
  | .paletteColors colors => ∀ entry ∈ colors, isColorKey entry.1 = true ∧ isIdentifier entry.2 = true
  | .indexedPaletteColors table => isIdentifier table = true
  | .layerVisibility _ selection => WrittenIn argumentChar selection
  | .assetPath directory => ∃ variant : Variant, directory = variant.cacheDirectory
  | .fileIdLookup => True

/-- The recognizers that swap the colors of a table, in its order. -/
def colorSwaps (colors : List (Text × Text)) : List Recognizer :=
  colors.map fun entry => swapColor entry.1 entry.2

/-- The blocks of a rule that writes a line once and finds it again when it runs once more. -/
def blocksUnless (line : Text) (blocks : List Block) (contents : List Text) : List Block :=
  if contents.any (Text.occursIn line) then contents.map .single else blocks

/-- The blocks that a rule writes for lines with the given contents. -/
def blocks (rule : Rule) (stem : Text) (contents : List Text) : List Block :=
  match rule with
  | .paletteAlias global =>
    blocksUnless (aliasStatement global) (aliasBlocks (aliasStatement global) false contents) contents
  | .paletteColors colors => contents.map fun content => .single (swept (colorSwaps colors) content)
  | .indexedPaletteColors table => contents.map fun content => .single (swept [swapIndexed table] content)
  | .layerVisibility figures selection => (gatedLines selection (gatesOf figures) contents).map .single
  | .assetPath directory =>
    contents.map fun content => .single ((remapBitmaps directory).script content).result
  | .fileIdLookup => blocksUnless (lookupEntry stem) (contents.map (lookupBlock (lookupEntry stem))) contents

/-- The replacements of a rule that counts a line where it is, and otherwise the places to write it at. -/
def countUnless (line : Text) (inserted : Nat) (contents : List Text) : Nat :=
  if contents.any (Text.occursIn line) then
    totalOf (fun content => ((Recognizer.literal line line).script content).swaps) contents
  else
    inserted

/-- The replacements that a rule counts in lines with the given contents. -/
def count (rule : Rule) (stem : Text) (contents : List Text) : Nat :=
  match rule with
  | .paletteAlias global => countUnless (aliasStatement global) (constructorCount false contents) contents
  | .paletteColors colors =>
    Rewrite.passCount (fun r contents => contents.map fun content => (r.script content).result)
      (fun r => totalOf fun content => (r.script content).swaps) (colorSwaps colors) contents
  | .indexedPaletteColors table => totalOf (fun content => ((swapIndexed table).script content).swaps) contents
  | .layerVisibility figures selection =>
    Rewrite.passCount (fun gate => gate.guardedLines selection none) (fun gate => gate.guardCount selection none)
      (gatesOf figures) contents
  | .assetPath directory =>
    totalOf (fun content => ((remapBitmaps directory).script content).swaps) contents
  | .fileIdLookup => countUnless (lookupEntry stem) (totalOf wiringCount contents) contents

/-! ### The fills of a palette -/

theorem colorSwaps_fillSwaps {colors : List (Text × Text)}
    (h : ∀ entry ∈ colors, isColorKey entry.1 = true ∧ isIdentifier entry.2 = true) :
    FillSwaps (colorSwaps colors) (fun color => ∃ slot, (color, slot) ∈ colors) where
  sound r hmem := by
    obtain ⟨entry, hentry, rfl⟩ := List.mem_map.1 hmem
    refine ⟨_, swapColor_fillSwap (h entry hentry).1 (h entry hentry).2, ?_⟩
    rintro color rfl
    exact ⟨entry.2, hentry⟩
  covers := by
    rintro color ⟨slot, hmem⟩
    exact ⟨_, List.mem_map_of_mem hmem, _, swapColor_fillSwap (h _ hmem).1 (h _ hmem).2, rfl⟩

theorem swapIndexed_fillSwaps {table : Text} (h : isIdentifier table = true) :
    FillSwaps [swapIndexed table] IsIndexColor where
  sound r hmem := by
    obtain rfl := List.mem_singleton.1 hmem
    exact ⟨_, swapIndexed_fillSwap h, fun _ hcolor => hcolor⟩
  covers color hcolor := ⟨_, List.mem_singleton_self _, _, swapIndexed_fillSwap h, hcolor⟩

/-- Sweeping all lines once for each recognizer sweeps each line once for each. -/
theorem foldl_map_result (rs : List Recognizer) (contents : List Text) :
    rs.foldl (fun contents r => contents.map fun content => (r.script content).result) contents
      = contents.map (swept rs) := by
  induction rs generalizing contents with
  | nil => exact (List.map_id contents).symm
  | cons r rs ih =>
      rw [List.foldl_cons, ih, List.map_map]
      rfl

theorem FillSwaps.linePass {rs : List Recognizer} {configured : Text → Prop} (h : FillSwaps rs configured) :
    ∀ r ∈ rs, LinePass r.script (fun contents => contents.map fun content => (r.script content).result)
      (totalOf fun content => (r.script content).swaps) := by
  intro r hmem
  obtain ⟨handles, hr, -⟩ := h.sound r hmem
  exact hr.inline.linePass fun content hcontent => hr.unbroken_result hcontent

theorem unbroken_swept {rs : List Recognizer} {configured : Text → Prop} (h : FillSwaps rs configured) {t : Text}
    (ht : Unbroken t) : Unbroken (swept rs t) := by
  have hone : ∀ content ∈ [t], Unbroken content := by simpa using ht
  have hall := Rewrite.unbroken_passes h.linePass hone
  rw [foldl_map_result] at hall
  simpa using hall

/-! ### Lines that are written once -/

theorem aliasStatement_ne_nil (global : Text) : aliasStatement global ≠ [] :=
  List.append_ne_nil_of_right_ne_nil _ (List.cons_ne_nil _ _)

theorem unbroken_aliasStatement {global : Text} (h : isIdentifier global = true) :
    Unbroken (aliasStatement global) := by
  have hopening : Unbroken "this.assetPalette = ".toList := by decide
  have hglobal : Unbroken global := (writtenIn_of_isIdentifier h).unbroken rfl rfl
  exact unbroken_append.2 ⟨unbroken_append.2 ⟨hopening, hglobal⟩, by decide⟩

/-- The characters of the statement are those of its words and its global. -/
theorem not_mem_aliasStatement {global : Text} (h : isIdentifier global = true) {c : Char}
    (hc : identifierChar c = false) (hopening : c ∉ "this.assetPalette = ".toList) (hsemicolon : c ≠ ';') :
    c ∉ aliasStatement global := by
  have hglobal := (writtenIn_of_isIdentifier h).not_mem hc
  intro hmem
  rcases List.mem_append.1 hmem with hmem | hmem
  · exact (List.mem_append.1 hmem).elim hopening hglobal
  · exact hsemicolon (List.mem_singleton.1 hmem)

theorem blank_mem_aliasStatement (global : Text) : ' ' ∈ aliasStatement global :=
  List.mem_append_left _ (List.mem_append_left _ (by decide))

theorem lookupEntry_ne_nil (stem : Text) : lookupEntry stem ≠ [] := by
  intro hnil
  have hliteral := (List.append_eq_nil_iff.1 (List.append_eq_nil_iff.1 hnil).1).2
  exact absurd hliteral (List.cons_ne_nil _ _)

/-- A line that replaces itself wherever it stands leaves the text and counts its occurrences. -/
theorem literal_self_lines {line : Text} (hne : line ≠ []) (hline : Unbroken line) (ls : Lines)
    (ending : LineEnding) :
    Script.result ((Recognizer.literal line line).script ls.text)
        = (ls.write ending (ls.contents.map .single)).text
      ∧ Script.swaps ((Recognizer.literal line line).script ls.text)
        = totalOf (fun content => ((Recognizer.literal line line).script content).swaps) ls.contents := by
  have hself : ((Recognizer.literal line line).script ls.text).result = ls.text :=
    Recognizer.view_result_literal id hne (fun _ _ => rfl) ls.text
  rw [hself, Lines.write_singles]
  exact ⟨rfl, ((Recognizer.literal_inline line hne hline).script_lines ending ls).2⟩

theorem totalOf_pos_iff {count : Text → Nat} {contents : List Text} :
    0 < totalOf count contents ↔ ∃ content ∈ contents, 0 < count content := by
  induction contents with
  | nil => simp
  | cons content contents ih => simp only [totalOf_cons, Nat.add_pos_iff_pos_or_pos, ih, List.exists_mem_cons_iff]

/-- A line is found in a text if it is found in one of the text's lines. -/
theorem swaps_literal_self_pos {line : Text} (hne : line ≠ []) (hline : Unbroken line) (ls : Lines) :
    0 < Script.swaps ((Recognizer.literal line line).script ls.text)
      ↔ ls.contents.any (Text.occursIn line) = true := by
  rw [(literal_self_lines hne hline ls .lf).2, totalOf_pos_iff, List.any_eq_true]
  simp only [Recognizer.swaps_literal_pos line hne, Text.occursIn_iff]

/-- Writing a line unless it is there is a rewriting of lines. -/
theorem rewrite_unless {line : Text} (hne : line ≠ []) (hline : Unbroken line) {ls : Lines} {ending : LineEnding}
    {insertion : Script} {blocks : List Block} {inserted : Nat}
    (hinsertion : insertion.result = (ls.write ending blocks).text ∧ insertion.swaps = inserted) :
    Rewrite.ofScript (if Script.swaps ((Recognizer.literal line line).script ls.text) > 0
        then (Recognizer.literal line line).script ls.text else insertion)
      = ⟨(ls.write ending (blocksUnless line blocks ls.contents)).text,
        countUnless line inserted ls.contents⟩ := by
  have hfound := swaps_literal_self_pos hne hline ls
  have hself := literal_self_lines hne hline ls ending
  by_cases hoccurs : ls.contents.any (Text.occursIn line) = true
  · rw [if_pos (hfound.2 hoccurs), blocksUnless, countUnless, if_pos hoccurs, if_pos hoccurs, ← hself.1, ← hself.2]
    rfl
  · rw [if_neg (fun hpos => hoccurs (hfound.1 hpos)), blocksUnless, countUnless, if_neg hoccurs, if_neg hoccurs,
      ← hinsertion.1, ← hinsertion.2]
    rfl

/-! ### The rules -/

/-- A rule rewrites the lines of a text by blocks, and counts replacements in their contents. -/
theorem apply_lines {rule : Rule} (h : rule.Sound) {ls : Lines} (hls : ls.Unbroken) (context : DocumentContext) :
    rule.apply context ls.text
      = ⟨(ls.write context.ending (rule.blocks context.stem ls.contents)).text,
        rule.count context.stem ls.contents⟩ := by
  cases rule with
  | paletteAlias global =>
      have hinsertion := insertAlias_lines context.ending (aliasStatement global) hls
      exact rewrite_unless (aliasStatement_ne_nil global) (unbroken_aliasStatement h) hinsertion
  | paletteColors colors =>
      have hpasses := Rewrite.passes_lines (colorSwaps_fillSwaps h).linePass hls context.ending
      rw [foldl_map_result, List.map_map, colorSwaps, List.map_map] at hpasses
      exact hpasses
  | indexedPaletteColors table =>
      have hlines := (swapIndexed_fillSwap h).inline.script_lines context.ending ls
      rw [apply, Rewrite.ofScript, hlines.1, hlines.2]
      rfl
  | layerVisibility figures selection =>
      exact Rewrite.passes_lines (fun gate _ => gate.linePass h) hls context.ending
  | assetPath directory =>
      obtain ⟨variant, rfl⟩ := h
      have hlines := (remapBitmaps_inline variant).script_lines context.ending ls
      rw [apply, Rewrite.ofScript, hlines.1, hlines.2]
      rfl
  | fileIdLookup =>
      have hinsertion := insertLookup_lines context.ending (lookupEntry context.stem) hls
      exact rewrite_unless (lookupEntry_ne_nil _) (unbroken_lookupEntry _) hinsertion

/-- The contents of the lines after a rule. -/
def lines (rule : Rule) (stem : Text) (contents : List Text) : List Text :=
  (rule.blocks stem contents).flatMap Block.lines

/-- A rule writes one block for each line. -/
theorem length_blocks (rule : Rule) (stem : Text) (contents : List Text) :
    (rule.blocks stem contents).length = contents.length := by
  have hunless : ∀ (line : Text) (blocks : List Block), blocks.length = contents.length →
      (blocksUnless line blocks contents).length = contents.length := by
    intro line blocks hblocks
    rw [blocksUnless]
    split
    · simp
    · exact hblocks
  cases rule with
  | paletteAlias global => exact hunless _ _ (length_aliasBlocks _ _ _)
  | fileIdLookup => exact hunless _ _ (by simp)
  | layerVisibility figures selection =>
      rw [blocks, List.length_map, (forall₂_gatedLines selection _ contents).length_eq]
  | paletteColors | indexedPaletteColors | assetPath => simp [blocks]

/-- What is inserted below stage constructors breaks no line. -/
theorem unbroken_aliasBlocks {statement : Text} (hstatement : Unbroken statement) {contents : List Text}
    (hcontents : ∀ content ∈ contents, Unbroken content) (headed : Bool) :
    ∀ line ∈ (aliasBlocks statement headed contents).flatMap Block.lines, Unbroken line := by
  induction contents generalizing headed with
  | nil => simp [aliasBlocks]
  | cons content contents ih =>
      rw [List.forall_mem_cons] at hcontents
      have hrest := ih hcontents.2 (content == stageHeading)
      rw [aliasBlocks, List.flatMap_cons, List.forall_mem_append]
      refine ⟨?_, hrest⟩
      split
      · simp [Block.lines, hcontents.1, hstatement]
      · simpa using hcontents.1

theorem unbroken_lookupBlock {entry content : Text} (hentry : Unbroken entry) (hcontent : Unbroken content) :
    ∀ line ∈ (lookupBlock entry content).lines, Unbroken line := by
  rw [lookupBlock]
  split
  · simp [Block.lines, unbroken_lookupGuard, hentry, unbroken_wiringLine]
  · simpa using hcontent

/-- The lines that a rule writes break no further. -/
theorem unbroken_lines {rule : Rule} (h : rule.Sound) (stem : Text) {contents : List Text}
    (hcontents : ∀ content ∈ contents, Unbroken content) :
    ∀ line ∈ rule.lines stem contents, Unbroken line := by
  have hunless : ∀ (line : Text) (blocks : List Block), (∀ content ∈ blocks.flatMap Block.lines, Unbroken content) →
      ∀ content ∈ (blocksUnless line blocks contents).flatMap Block.lines, Unbroken content := by
    intro line blocks hblocks
    rw [blocksUnless]
    split
    · simpa using hcontents
    · exact hblocks
  have hmap : ∀ f : Text → Text, (∀ content, Unbroken content → Unbroken (f content)) →
      ∀ line ∈ (contents.map fun content => Block.single (f content)).flatMap Block.lines, Unbroken line := by
    intro f hf line hmem
    obtain ⟨content, hcontent, rfl⟩ : ∃ content ∈ contents, line = f content := by
      simpa [List.flatMap_map, Block.single, Block.lines] using hmem
    exact hf content (hcontents content hcontent)
  cases rule with
  | paletteAlias global => exact hunless _ _ (unbroken_aliasBlocks (unbroken_aliasStatement h) hcontents false)
  | paletteColors colors => exact hmap _ fun content hcontent => unbroken_swept (colorSwaps_fillSwaps h) hcontent
  | indexedPaletteColors table =>
      exact hmap _ fun content hcontent => unbroken_swept (swapIndexed_fillSwaps h) hcontent
  | layerVisibility figures selection =>
      rw [lines, blocks, Block.flatMap_lines_single]
      exact Rewrite.unbroken_passes (fun gate _ => gate.linePass h) hcontents
  | assetPath directory =>
      obtain ⟨variant, rfl⟩ := h
      exact hmap _ fun content hcontent => unbroken_remapped variant hcontent
  | fileIdLookup =>
      apply hunless _ _
      intro line hmem
      obtain ⟨b, hb, hline⟩ := List.mem_flatMap.1 hmem
      obtain ⟨content, hcontent, rfl⟩ := List.mem_map.1 hb
      exact unbroken_lookupBlock (unbroken_lookupEntry stem) (hcontents content hcontent) line hline

end Rule

end CanvasExport
