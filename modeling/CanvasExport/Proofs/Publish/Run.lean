/-
Module: CanvasExport.Proofs.Publish.Run
Layer: Proofs
Purpose: Running the rules of a pipeline over lines. Each rule writes lines for the lines that the one before it
  wrote, and a run that succeeds has written what all of them together make of the source; only the policy on
  rules that find nothing can make a run fail.
Main exports: Palette.Valid, Pipeline.eq_of_create, Lines.rewritten, draftLines, foldl_lines_listFor,
  Pipeline.text_of_applyRules, Pipeline.exists_applyRules, Pipeline.text_of_publishDocument
-/
import CanvasExport.Proofs.Rule.Lines
import CanvasExport.Publish.Pipeline

namespace CanvasExport

/-! ### Pipelines of valid palettes -/

/-- What makes the emitted code of a palette valid. -/
structure Palette.Valid (palette : Palette) : Prop where
  global : isIdentifier palette.paletteGlobal = true
  table : isIdentifier palette.paletteTable = true
  colors : ∀ entry ∈ palette.colors.entries, isColorKey entry.1 = true ∧ isIdentifier entry.2 = true

theorem Palette.valid_of_problems {palette : Palette} (h : palette.problems = []) : palette.Valid := by
  rw [problems, List.append_eq_nil_iff, List.map_eq_nil_iff, List.filter_eq_nil_iff, List.flatMap_eq_nil_iff] at h
  obtain ⟨hglobals, hcolors⟩ := h
  refine ⟨by simpa using hglobals palette.paletteGlobal (by simp),
    by simpa using hglobals palette.paletteTable (by simp), fun entry hmem => ?_⟩
  have hentry := hcolors entry hmem
  rw [entryProblems, List.append_eq_nil_iff] at hentry
  exact ⟨by simpa using hentry.1, by simpa using hentry.2⟩

/-- A pipeline exists only for a valid palette, and runs the rules of its variant. -/
theorem Pipeline.eq_of_create {palette : Palette} {options : Options} {pipeline : Pipeline}
    (h : Pipeline.create palette options = .ok pipeline) :
    palette.Valid ∧ pipeline = ⟨options, Rule.listFor palette options.variant options.remapAssetPath⟩ := by
  unfold create at h
  cases hengine : checkEngine palette with
  | error error => simp [hengine, bind, Except.bind] at h
  | ok _ =>
      simp only [hengine, bind, Except.bind] at h
      split at h
      · rename_i hproblems
        exact ⟨Palette.valid_of_problems hproblems, (Except.ok.inj h).symm⟩
      · contradiction

theorem writtenIn_selectionOf {palette : Palette} (h : palette.Valid) (variant : Variant) :
    WrittenIn argumentChar (selectionOf variant palette) := by
  cases variant with
  | aliased => exact (by decide : WrittenIn argumentChar "this.assetPalette".toList)
  | indexed => exact (writtenIn_of_isIdentifier h.table).argument.append (by decide)

/-- The rules of a valid palette have sound parameters. -/
theorem Rule.sound_of_mem_listFor {palette : Palette} (h : palette.Valid) {variant : Variant}
    {remapAssetPath : Bool} {rule : Rule} (hmem : rule ∈ Rule.listFor palette variant remapAssetPath) :
    rule.Sound := by
  have hlayer : (Rule.layerVisibility palette.figures.toNat (selectionOf variant palette)).Sound :=
    writtenIn_selectionOf h variant
  have hasset : (Rule.assetPath variant.cacheDirectory).Sound := ⟨variant, rfl⟩
  have hfills : ∀ rule ∈ fillRules variant palette, rule.Sound := by
    cases variant with
    | aliased => simpa [fillRules, Sound] using And.intro h.global h.colors
    | indexed => simpa [fillRules, Sound] using h.table
  simp only [listFor, List.mem_append, List.mem_singleton] at hmem
  rcases hmem with ((hmem | rfl) | hmem) | rfl
  · exact hfills rule hmem
  · exact hlayer
  · split at hmem
    · exact List.mem_singleton.1 hmem ▸ hasset
    · simp at hmem
  · trivial

namespace Logged

theorem map_map {α β γ : Type} (f : α → β) (g : β → γ) (run : Logged α) :
    (run.map f).map g = run.map fun a => g (f a) := by
  obtain ⟨events, outcome⟩ := run
  cases outcome <;> rfl

theorem map_after {α β : Type} (f : α → β) (earlier : List Event) (run : Logged α) :
    (run.after earlier).map f = (run.map f).after earlier := rfl

end Logged

/-! ### Rules one after the other -/

/-- The lines after all rules. -/
def Lines.rewritten (context : DocumentContext) (rules : List Rule) (ls : Lines) : Lines :=
  rules.foldl (fun ls rule => ls.write context.ending (rule.blocks context.stem ls.contents)) ls

namespace Lines

theorem unbroken_write_blocks {rule : Rule} (h : rule.Sound) {ls : Lines} (hls : ls.Unbroken)
    (ending : LineEnding) (stem : Text) : (ls.write ending (rule.blocks stem ls.contents)).Unbroken :=
  unbroken_write (rule.length_blocks stem ls.contents) (Rule.unbroken_lines h stem hls)

theorem unbroken_rewritten {rules : List Rule} (h : ∀ rule ∈ rules, rule.Sound) {ls : Lines} (hls : ls.Unbroken)
    (context : DocumentContext) : (ls.rewritten context rules).Unbroken := by
  induction rules generalizing ls with
  | nil => exact hls
  | cons rule rules ih =>
      rw [List.forall_mem_cons] at h
      exact ih h.2 (unbroken_write_blocks h.1 hls context.ending context.stem)

/-- The contents of the lines after all rules: each rule reads what the one before it wrote. -/
theorem contents_rewritten (context : DocumentContext) (rules : List Rule) (ls : Lines) :
    (ls.rewritten context rules).contents
      = rules.foldl (fun contents rule => rule.lines context.stem contents) ls.contents := by
  induction rules generalizing ls with
  | nil => rfl
  | cons rule rules ih =>
      have hcontents : (ls.write context.ending (rule.blocks context.stem ls.contents)).contents
          = rule.lines context.stem ls.contents := contents_write (rule.length_blocks context.stem ls.contents)
      rw [rewritten, List.foldl_cons, List.foldl_cons]
      exact (ih _).trans (by rw [hcontents])

end Lines

/-- Rules that are applied one after the other rewrite the lines of a text. -/
theorem Rule.foldl_apply_lines {rules : List Rule} (hrules : ∀ rule ∈ rules, rule.Sound) {ls : Lines}
    (hls : ls.Unbroken) (context : DocumentContext) :
    rules.foldl (fun t rule => (rule.apply context t).text) ls.text = (ls.rewritten context rules).text := by
  induction rules generalizing ls with
  | nil => rfl
  | cons rule rules ih =>
      rw [List.forall_mem_cons] at hrules
      rw [List.foldl_cons, Rule.apply_lines hrules.1 hls]
      exact ih hrules.2 (Lines.unbroken_write_blocks hrules.1 hls context.ending context.stem)

namespace Pipeline

/-- The text of a run that succeeds is that of the rewritten lines. -/
theorem text_of_applyRules {policy : UnmatchedPolicy} {context : DocumentContext} {rules : List Rule}
    (hrules : ∀ rule ∈ rules, rule.Sound) {ls : Lines} (hls : ls.Unbroken) {published : PublishedDocument}
    (h : (applyRules policy context rules ls.text).outcome = .ok published) :
    published.text = (ls.rewritten context rules).text := by
  induction rules generalizing ls published with
  | nil => exact (congrArg PublishedDocument.text (Except.ok.inj h)).symm
  | cons rule rules ih =>
      rw [List.forall_mem_cons] at hrules
      unfold applyRules at h
      simp only [Rule.apply_lines hrules.1 hls] at h
      split at h
      · contradiction
      · simp only [Logged.after, Logged.map] at h
        cases hrest : (applyRules policy context rules
            (ls.write context.ending (rule.blocks context.stem ls.contents)).text).outcome with
        | error error => simp [hrest, Except.map] at h
        | ok document =>
            have hunbroken := Lines.unbroken_write_blocks hrules.1 hls context.ending context.stem
            have htext := ih hrules.2 hunbroken hrest
            simp only [hrest, Except.map, Except.ok.injEq] at h
            rw [← h]
            exact htext

/-- Unless a rule that finds nothing counts as a failure, every run succeeds. -/
theorem exists_applyRules {policy : UnmatchedPolicy} (hpolicy : policy ≠ .fail) (context : DocumentContext)
    (rules : List Rule) (t : Text) : ∃ published, (applyRules policy context rules t).outcome = .ok published := by
  induction rules generalizing t with
  | nil => exact ⟨_, rfl⟩
  | cons rule rules ih =>
      obtain ⟨document, hrest⟩ := ih (rule.apply context t).text
      have hpass : (if (rule.apply context t).replacements = 0
          then handleUnmatched policy rule.name context.stem else .of (.ok ())).outcome = .ok () := by
        split
        · cases policy with
          | ignore => rfl
          | warn => rfl
          | fail => exact absurd rfl hpolicy
        · rfl
      refine ⟨{ document with rules := (rule.name, (rule.apply context t).replacements) :: document.rules }, ?_⟩
      unfold applyRules
      simp only [hpass, Logged.after, Logged.map, hrest]
      rfl

/-! ### What the rules of a pipeline make of lines -/

end Pipeline

/-- The recognizers that a variant swaps fills by. -/
def fillSwapsOf (variant : Variant) (palette : Palette) : List Recognizer :=
  match variant with
  | .aliased => Rule.colorSwaps palette.colors.entries
  | .indexed => [Rule.swapIndexed palette.paletteTable]

/-- The colors whose fills a variant swaps. -/
def ConfiguredColor (variant : Variant) (palette : Palette) (color : Text) : Prop :=
  match variant with
  | .aliased => ∃ slot, (color, slot) ∈ palette.colors.entries
  | .indexed => Rule.IsIndexColor color

theorem fillSwaps_of_valid {palette : Palette} (h : palette.Valid) (variant : Variant) :
    Rule.FillSwaps (fillSwapsOf variant palette) (ConfiguredColor variant palette) := by
  cases variant with
  | aliased => exact Rule.colorSwaps_fillSwaps h.colors
  | indexed => exact Rule.swapIndexed_fillSwaps h.table

/-- The lines with the palette bound in each stage, if the variant binds it. -/
def boundLines (variant : Variant) (palette : Palette) (contents : List Text) : List Text :=
  match variant with
  | .aliased => (Rule.paletteAlias palette.paletteGlobal).lines [] contents
  | .indexed => contents

/-- The lines with their bitmaps remapped, if the options ask for it. -/
def servedLines (options : Options) (contents : List Text) : List Text :=
  if options.remapAssetPath then contents.map (Rule.remapped options.variant) else contents

/-- The lines before the lookup entry is written: bound, filled, gated and served. -/
def draftLines (palette : Palette) (options : Options) (contents : List Text) : List Text :=
  servedLines options (Rule.gatedLines (selectionOf options.variant palette) (Rule.gatesOf palette.figures.toNat)
    ((boundLines options.variant palette contents).map (Rule.swept (fillSwapsOf options.variant palette))))

/-- The fill rules of a variant bind the palette and swap the configured fills. -/
theorem foldl_lines_fillRules (palette : Palette) (variant : Variant) (stem : Text) (contents : List Text) :
    (fillRules variant palette).foldl (fun contents rule => rule.lines stem contents) contents
      = (boundLines variant palette contents).map (Rule.swept (fillSwapsOf variant palette)) := by
  cases variant with
  | aliased => exact Block.flatMap_lines_map _ _
  | indexed => exact Block.flatMap_lines_map _ _

/-- The rules of a pipeline draft the lines and write the lookup entry. -/
theorem foldl_lines_listFor (palette : Palette) (options : Options) (stem : Text) (contents : List Text) :
    (Rule.listFor palette options.variant options.remapAssetPath).foldl
        (fun contents rule => rule.lines stem contents) contents
      = Rule.fileIdLookup.lines stem (draftLines palette options contents) := by
  have hgates : ∀ figures selection contents, (Rule.layerVisibility figures selection).lines stem contents
      = Rule.gatedLines selection (Rule.gatesOf figures) contents :=
    fun figures selection contents => Block.flatMap_lines_single _
  rw [Rule.listFor, List.foldl_append, List.foldl_append, List.foldl_append, foldl_lines_fillRules]
  cases hremap : options.remapAssetPath with
  | false =>
      simp only [draftLines, servedLines, hremap, List.foldl_cons, List.foldl_nil, hgates]
      rfl
  | true =>
      have hserved : ∀ contents, (Rule.assetPath options.variant.cacheDirectory).lines stem contents
          = contents.map (Rule.remapped options.variant) := fun contents => Block.flatMap_lines_map _ _
      simp only [draftLines, servedLines, hremap, if_true, List.foldl_cons, List.foldl_nil, hgates, hserved]

namespace Pipeline

/-! ### Publishing over lines -/

section Publish

variable {palette : Palette} {options : Options} {pipeline : Pipeline}
  (hcreate : Pipeline.create palette options = .ok pipeline)

include hcreate

theorem options_of_create : pipeline.options = options := by
  rw [(eq_of_create hcreate).2]

theorem rules_of_create :
    pipeline.rules = Rule.listFor palette options.variant options.remapAssetPath := by
  rw [(eq_of_create hcreate).2]

theorem sound_of_create : ∀ rule ∈ pipeline.rules, rule.Sound := by
  intro rule hmem
  rw [rules_of_create hcreate] at hmem
  exact Rule.sound_of_mem_listFor (eq_of_create hcreate).1 hmem

/-- What a run publishes is what its rules make of the lines of the source, and the marker. -/
theorem text_of_publishDocument {document source stem : Text} (hsource : pipeline.source? document = some source)
    (htidy : Tidy source = true) {published : PublishedDocument}
    (h : (pipeline.publishDocument document stem).outcome = .ok published) :
    published.text = mark (LineEnding.ofText source)
      ((Lines.ofText source).rewritten (.ofDocument stem source) pipeline.rules).text := by
  unfold publishDocument at h
  simp only [hsource, Logged.map] at h
  cases hrun : (applyRules pipeline.options.onUnmatched (.ofDocument stem source) pipeline.rules source).outcome with
  | error error => simp [hrun, Except.map] at h
  | ok document =>
      have hlines := hrun
      rw [← Lines.text_ofText source] at hlines
      have htext := text_of_applyRules (sound_of_create hcreate) (Lines.unbroken_ofText htidy) hlines
      simp only [hrun, Except.map, Except.ok.injEq] at h
      rw [← h, htext, Lines.text_ofText]
      rfl

/-- The contents of the lines that the rules of a pipeline write. -/
theorem contents_of_create (context : DocumentContext) (ls : Lines) :
    (ls.rewritten context pipeline.rules).contents
      = Rule.fileIdLookup.lines context.stem (draftLines palette options ls.contents) := by
  rw [Lines.contents_rewritten, rules_of_create hcreate, foldl_lines_listFor]

end Publish

/-- Unless a rule that finds nothing counts as a failure, every document with a source is published. -/
theorem exists_publishDocument {pipeline : Pipeline} (hpolicy : pipeline.options.onUnmatched ≠ .fail)
    {document source : Text} (hsource : pipeline.source? document = some source) (stem : Text) :
    ∃ published, (pipeline.publishDocument document stem).outcome = .ok published := by
  obtain ⟨published, hrun⟩ := exists_applyRules hpolicy (.ofDocument stem source) pipeline.rules source
  refine ⟨{ published with text := mark (LineEnding.ofText source) published.text }, ?_⟩
  unfold publishDocument
  simp only [hsource, Logged.map, hrun]
  rfl

end Pipeline

end CanvasExport
