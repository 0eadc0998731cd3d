/-
Module: CanvasExport.Proofs.Publish.FixedPoint
Layer: Proofs
Purpose: Publishing again what has been published. The marker is stripped as it was written and the line ending is
  found again, so the rules start from the lines that they have written; each of them then finds every line as it
  leaves it. This takes a stem whose entry no gate reads anything in, and layers that no two gates share.
Main exports: Lines.rewritten_eq_self, layerText, GatedOnce, lines_of_published, Pipeline.publishDocument_again
-/
import CanvasExport.Proofs.Publish.Marking
import CanvasExport.Proofs.Publish.Stability

namespace CanvasExport

open Rule

/-! ### Rules with nothing to do -/

/-- Rules that write the lines that they read leave the text as it is. -/
theorem Lines.rewritten_eq_self (context : DocumentContext) {rules : List Rule} {ls : Lines}
    (h : ∀ rule ∈ rules, rule.lines context.stem ls.contents = ls.contents) : ls.rewritten context rules = ls := by
  induction rules with
  | nil => rfl
  | cons rule rules ih =>
      rw [List.forall_mem_cons] at h
      have hblocks := Block.eq_singles (rule.length_blocks context.stem ls.contents) h.1
      rw [rewritten, List.foldl_cons, hblocks, write_singles]
      exact ih h.2

/-! ### Layers that no two gates share -/

/-- The text that the layer rule of a pipeline receives. -/
def layerText (palette : Palette) (options : Options) (stem document : Text) : Text :=
  (fillRules options.variant palette).foldl (fun t rule => (rule.apply (.ofDocument stem document) t).text) document

/-- No registration line of a text is the line of a layer for two gates of the palette. -/
def GatedOnce (palette : Palette) (variant : Variant) (t : Text) : Prop :=
  ∀ g ∈ gatesOf palette.figures.toNat, ∀ g' ∈ gatesOf palette.figures.toNat, g ≠ g' →
    ∀ place ∈ g.gatedPlaces (selectionOf variant palette) t, place ∉ g'.gatedPlaces (selectionOf variant palette) t

instance (palette : Palette) (variant : Variant) (t : Text) : Decidable (GatedOnce palette variant t) :=
  inferInstanceAs (Decidable (∀ g ∈ gatesOf palette.figures.toNat, ∀ g' ∈ gatesOf palette.figures.toNat, g ≠ g' →
    ∀ place ∈ g.gatedPlaces (selectionOf variant palette) t, place ∉ g'.gatedPlaces (selectionOf variant palette) t))

/-- The layer rule receives the bound and filled lines of the document. -/
theorem layerText_lines {palette : Palette} (hvalid : palette.Valid) (options : Options) (stem : Text)
    {document : Text} (htidy : Tidy document = true) :
    ∃ ls : Lines, ls.Unbroken ∧ ls.text = layerText palette options stem document
      ∧ ls.contents = (boundLines options.variant palette (Lines.ofText document).contents).map
        (swept (fillSwapsOf options.variant palette)) := by
  have hrules : ∀ rule ∈ fillRules options.variant palette, rule.Sound := by
    intro rule hmem
    have hlist : rule ∈ Rule.listFor palette options.variant options.remapAssetPath := by simp [Rule.listFor, hmem]
    exact Rule.sound_of_mem_listFor hvalid hlist
  have hls := Lines.unbroken_ofText htidy
  refine ⟨(Lines.ofText document).rewritten (.ofDocument stem document) (fillRules options.variant palette),
    Lines.unbroken_rewritten hrules hls _, ?_, ?_⟩
  · rw [← Rule.foldl_apply_lines hrules hls, Lines.text_ofText, layerText]
  · rw [Lines.contents_rewritten, foldl_lines_fillRules]

/-- Gates that share no layer are settled in the drafted lines. -/
theorem settled_draftLines {palette : Palette} (hvalid : palette.Valid) (options : Options) (stem : Text)
    {document : Text} (htidy : Tidy document = true)
    (hgated : GatedOnce palette options.variant (layerText palette options stem document)) :
    ∀ g ∈ gatesOf palette.figures.toNat, g.Settled (selectionOf options.variant palette) none
      (draftLines palette options (Lines.ofText document).contents) := by
  have hselection := writtenIn_selectionOf hvalid options.variant
  obtain ⟨ls, hls, htext, hcontents⟩ := layerText_lines hvalid options stem htidy
  have hapart : ∀ g ∈ gatesOf palette.figures.toNat, ∀ g' ∈ gatesOf palette.figures.toNat, g ≠ g' →
      g.Apart g' (selectionOf options.variant palette) none none ls.contents := by
    intro g hg g' hg' hne
    apply LayerGate.apart_of_gatedPlaces hls
    rw [htext]
    exact hgated g hg g' hg' hne
  intro g hg
  have hsettled := settled_gatedLines hselection hapart g hg
  rw [hcontents] at hsettled
  unfold draftLines servedLines
  split
  · apply hsettled.remapped hselection options.variant (g.waits_none _)
    rw [← hcontents]
    intro line hmem
    obtain ⟨content, hcontent, hline⟩ := mem_of_forall₂ (forall₂_gatedLines _ _ _) hmem
    exact unbroken_guarded hselection hline (hls content hcontent)
  · exact hsettled

/-! ### Publishing again -/

/-- Every rule of a pipeline writes the published lines that it reads. -/
theorem lines_of_published {palette : Palette} (hvalid : palette.Valid) (options : Options) {stem : Text}
    (hslash : '/' ∉ stem) (hregistration : ¬ registration <:+: Text.literal stem) {document : Text}
    (htidy : Tidy document = true)
    (hgated : GatedOnce palette options.variant (layerText palette options stem document)) :
    ∀ rule ∈ Rule.listFor palette options.variant options.remapAssetPath,
      rule.lines stem (Rule.fileIdLookup.lines stem (draftLines palette options (Lines.ofText document).contents))
        = Rule.fileIdLookup.lines stem (draftLines palette options (Lines.ofText document).contents) := by
  have hls := Lines.unbroken_ofText htidy
  have hwoven := woven_lines hvalid options stem hls
  have hmap : ∀ (f : Text → Text) (contents : List Text), (∀ line ∈ contents, f line = line) →
      (contents.map fun line => Block.single (f line)).flatMap Block.lines = contents := by
    intro f contents hf
    rw [Block.flatMap_lines_map, List.map_congr_left hf, List.map_id']
  have hfills : ∀ rule ∈ fillRules options.variant palette, rule.lines stem
      (Rule.fileIdLookup.lines stem (draftLines palette options (Lines.ofText document).contents))
        = Rule.fileIdLookup.lines stem (draftLines palette options (Lines.ofText document).contents) := by
    have hswept := fun line => @swept_woven palette hvalid options stem _ _ hwoven hls line
    cases hvariant : options.variant with
    | aliased =>
        rw [hvariant] at hswept
        rw [fillRules, List.forall_mem_cons, List.forall_mem_singleton]
        exact ⟨alias_lines_woven hvalid hwoven hls hvariant, hmap _ _ hswept⟩
    | indexed =>
        rw [hvariant] at hswept
        rw [fillRules, List.forall_mem_singleton]
        exact hmap _ _ hswept
  intro rule hmem
  simp only [Rule.listFor, List.mem_append, List.mem_singleton] at hmem
  rcases hmem with ((hmem | rfl) | hmem) | rfl
  · exact hfills rule hmem
  · have hentry : LayerGate.Mute (entryLine stem) :=
      ⟨throughRegistration?_entryLine hregistration, slash_not_mem_entryLine hslash⟩
    have hsettled := settled_draftLines hvalid options stem htidy hgated
    rw [Rule.lines, Rule.blocks, Block.flatMap_lines_single]
    exact gatedLines_of_settled fun g hg => settled_lookup_lines (hsettled g hg) hentry
  · split at hmem
    · rename_i hremap
      rw [List.mem_singleton.1 hmem]
      exact hmap _ _ fun line hline => remapped_woven hvalid hwoven hremap hslash hline
    · simp at hmem
  · exact lookup_lines_lines stem _

namespace Pipeline

/-- Forced publishing is a fixed point of itself: a document whose layers no two gates share is published, what is
    published is published again as it is, and so it is after any number of further attempts. -/
theorem publishDocument_again {palette : Palette} {options : Options} {pipeline : Pipeline}
    (hcreate : Pipeline.create palette options = .ok pipeline) (hforce : options.force = true)
    (hpolicy : options.onUnmatched ≠ .fail) {stem : Text} (hslash : '/' ∉ stem)
    (hregistration : ¬ registration <:+: Text.literal stem) {document : Text}
    (hunpublished : isPublished document = false) (htidy : Tidy document = true)
    (hgated : GatedOnce palette options.variant (layerText palette options stem document)) :
    ∃ published, (pipeline.publishDocument document stem).outcome = .ok published
      ∧ (∃ again, (pipeline.publishDocument published.text stem).outcome = .ok again ∧ again.text = published.text)
      ∧ ∀ n, Attempt.run published.text (List.replicate n ⟨pipeline, stem, palette, options, hcreate⟩)
        = published.text := by
  have hvalid := (eq_of_create hcreate).1
  have hls := Lines.unbroken_ofText htidy
  have hpristine : Pristine (LineEnding.ofText document) document := ⟨htidy, hunpublished, rfl⟩
  rw [← options_of_create hcreate] at hforce hpolicy
  have hsource : pipeline.source? document = some document := source?_of_pristine hpristine
  obtain ⟨published, hpublished⟩ := exists_publishDocument hpolicy hsource stem
  have htext := text_of_publishDocument hcreate hsource htidy hpublished
  have hbody := pristine_rewritten hcreate stem hpristine
  -- The second run starts from the text of the lines that the first has written.
  have hsource' : pipeline.source? published.text
      = some ((Lines.ofText document).rewritten (.ofDocument stem document) pipeline.rules).text := by
    rw [htext, source?_mark hbody, hforce, if_pos rfl]
  obtain ⟨again, hagain⟩ := exists_publishDocument hpolicy hsource' stem
  have htext' := text_of_publishDocument hcreate hsource' hbody.tidy hagain
  have hwritten := Lines.unbroken_rewritten (sound_of_create hcreate) hls (.ofDocument stem document)
  have hfixed := lines_of_published hvalid options hslash hregistration htidy hgated
  rw [← rules_of_create hcreate] at hfixed
  have hcontents := contents_of_create hcreate (.ofDocument stem document) (Lines.ofText document)
  have hself : ∀ context : DocumentContext, context.stem = stem →
      ((Lines.ofText document).rewritten (.ofDocument stem document) pipeline.rules).rewritten context pipeline.rules
        = (Lines.ofText document).rewritten (.ofDocument stem document) pipeline.rules := by
    intro context hstem
    apply Lines.rewritten_eq_self context
    intro rule hmem
    rw [hstem, hcontents]
    exact hfixed rule hmem
  rw [Lines.ofText_text hwritten, hself _ rfl, hbody.ending, ← htext] at htext'
  refine ⟨published, hpublished, ⟨again, hagain, htext'⟩, fun n => ?_⟩
  induction n with
  | zero => rfl
  | succ n ih =>
      have hsuccess : (Attempt.publish ⟨pipeline, stem, palette, options, hcreate⟩ published.text).outcome
          = .ok again := hagain
      rw [List.replicate_succ, Attempt.run, List.foldl_cons, Attempt.next_of_success hsuccess, htext']
      exact ih

/-- The built-in palette's layers in a stage are published for good. -/
theorem publishDocument_again_stageExport :
    ∃ published, ((Attempt.again "walk".toList).publish stageExport).outcome = .ok published
      ∧ (∃ again, ((Attempt.again "walk".toList).publish published.text).outcome = .ok again
        ∧ again.text = published.text)
      ∧ ∀ n, Attempt.run published.text (List.replicate n (Attempt.again "walk".toList)) = published.text := by
  have hcreate : Pipeline.create .standard { Options.standard with force := true }
      = .ok (Attempt.again "walk".toList).pipeline := by decide +kernel
  have hunpublished : isPublished stageExport = false := by decide +kernel
  have htidy : Tidy stageExport = true := by decide +kernel
  have hgated : GatedOnce .standard .aliased
      (layerText .standard { Options.standard with force := true } "walk".toList stageExport) := by decide +kernel
  exact publishDocument_again hcreate rfl (by decide) (by decide) (by decide +kernel) hunpublished htidy hgated

/-- A tag without a registration line, and the wiring line. -/
def tagExport : Text :=
  "// figure0avatar\n".toList ++ wiringLine

/-- A stem that spells no registration word, but whose literal does: its control character is escaped by an `a`. -/
def escapedStem : Text :=
  "\x1addTween".toList

/-- So the entry of a stem can be the registration line that a tag lacked, and publishing again guards it. -/
theorem not_publishDocument_again :
    Pipeline.create .standard { Options.standard with force := true } = .ok (Attempt.again escapedStem).pipeline
      ∧ (Attempt.again escapedStem).pipeline.options.force = true
      ∧ (Attempt.again escapedStem).pipeline.options.onUnmatched ≠ .fail
      ∧ '/' ∉ escapedStem ∧ ¬ registration <:+: escapedStem
      ∧ isPublished tagExport = false ∧ Tidy tagExport = true
      ∧ GatedOnce .standard .aliased
        (layerText .standard { Options.standard with force := true } escapedStem tagExport)
      ∧ ∃ published again, ((Attempt.again escapedStem).publish tagExport).outcome = .ok published
        ∧ ((Attempt.again escapedStem).publish published.text).outcome = .ok again
        ∧ again.text ≠ published.text := by
  have hpolicy : (Attempt.again escapedStem).pipeline.options.onUnmatched ≠ .fail := by decide
  refine ⟨by decide +kernel, rfl, hpolicy, by decide, by decide +kernel, by decide +kernel, by decide +kernel,
    by decide +kernel, ?_⟩
  obtain ⟨published, hpublished⟩ := Attempt.exists_publish rfl hpolicy tagExport
  obtain ⟨again, hagain⟩ := Attempt.exists_publish rfl hpolicy published.text
  refine ⟨published, again, hpublished, hagain, ?_⟩
  rw [← Attempt.next_of_success hagain, ← Attempt.next_of_success hpublished]
  decide +kernel

end Pipeline

end CanvasExport
