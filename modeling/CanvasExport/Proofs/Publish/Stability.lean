/-
Module: CanvasExport.Proofs.Publish.Stability
Layer: Proofs
Purpose: What published lines leave for the same rules to do. Every line of a woven text is an image behind guards,
  the alias statement, the lookup entry or empty; in none of them is a configured fill or a bitmap left, and where
  the statement is missing there is no stage to write it below.
Main exports: literal_not_infix_lineImage, Woven.mem_cases, Woven.exists_image, Woven.exists_bound,
  Woven.constructorCount_eq_zero, not_infix_woven, remapped_woven, alias_lines_woven, swept_woven
-/
import CanvasExport.Proofs.Publish.Weave

namespace CanvasExport

open Rule

/-! ### What is found in images -/

section Images

variable {palette : Palette} (hvalid : palette.Valid) (options : Options) {line : Text}

include hvalid

theorem isConstructorLine_lineImage (hline : Unbroken line) :
    isConstructorLine (lineImage palette options line) = isConstructorLine line := by
  have hfills := fillSwaps_of_valid hvalid options.variant
  exact view_lineImage isConstructorLine hvalid options hfills.isConstructorLine_swept
    (fun _ ht => isConstructorLine_remapped options.variant ht) hline

theorem aliasStatement_infix_lineImage_iff (hline : Unbroken line) :
    aliasStatement palette.paletteGlobal <:+: lineImage palette options line
      ↔ aliasStatement palette.paletteGlobal <:+: line := by
  have hfills := fillSwaps_of_valid hvalid options.variant
  -- Its blanks keep the statement out of arguments and words.
  have hblank : ∀ {alphabet : Char → Bool} {t : Text}, alphabet ' ' = false → WrittenIn alphabet t →
      ¬ aliasStatement palette.paletteGlobal <:+: t := by
    intro alphabet t hblank ht hoccurs
    exact ht.not_mem hblank (hoccurs.subset (blank_mem_aliasStatement _))
  have hopen : '(' ∉ aliasStatement palette.paletteGlobal :=
    not_mem_aliasStatement hvalid.global (by decide) (by decide) (by decide)
  have hclose : ')' ∉ aliasStatement palette.paletteGlobal :=
    not_mem_aliasStatement hvalid.global (by decide) (by decide) (by decide)
  have hquote : '"' ∉ aliasStatement palette.paletteGlobal :=
    not_mem_aliasStatement hvalid.global (by decide) (by decide) (by decide)
  have hslash : '/' ∉ aliasStatement palette.paletteGlobal :=
    not_mem_aliasStatement hvalid.global (by decide) (by decide) (by decide)
  refine iff_of_eq (view_lineImage (fun t => aliasStatement palette.paletteGlobal <:+: t) hvalid options
    (fun t => ?_) (fun t ht => ?_) hline)
  · refine hfills.view_swept (fun t => aliasStatement palette.paletteGlobal <:+: t)
      (fun first second above below hfirst hsecond => propext ?_) t
    rw [infix_fillReference_iff hopen hclose (hblank (by decide) hfirst),
      infix_fillReference_iff hopen hclose (hblank (by decide) hsecond)]
  · exact propext (infix_remapped_iff hquote hslash (fun word hword => hblank (by decide) hword) options.variant ht)

/-- No fill that the palette configures is left in an image. -/
theorem literal_not_infix_lineImage {color : Text} (hcolor : ConfiguredColor options.variant palette color)
    (hline : Unbroken line) : ¬ fillLiteral color <:+: lineImage palette options line := by
  have hfills := fillSwaps_of_valid hvalid options.variant
  have hclear := hfills.swept_clear hcolor line
  obtain ⟨_, _, handles, hswap, hhandles⟩ := hfills.covers color hcolor
  unfold lineImage
  dsimp only
  split
  · rwa [literal_infix_remapped_iff (hswap.colors hhandles) options.variant (unbroken_swept hfills hline)]
  · exact hclear

theorem configuredColor_eq_cons {color : Text} (hcolor : ConfiguredColor options.variant palette color) :
    ∃ digits, color = '#' :: digits := by
  unfold ConfiguredColor at hcolor
  split at hcolor
  · obtain ⟨slot, hmem⟩ := hcolor
    have hkey := (hvalid.colors _ hmem).1
    unfold isColorKey at hkey
    split at hkey
    · exact ⟨_, ‹_›⟩
    · contradiction
  · obtain ⟨c, p₁, p₂, s₁, s₂, rfl, -, -⟩ := hcolor
    exact ⟨_, rfl⟩

end Images

/-- No bitmap is left in an image if bitmaps are remapped. -/
theorem bitmap_not_infix_lineImage (palette : Palette) {options : Options} (h : options.remapAssetPath = true)
    (line : Text) : ¬ bitmapOpening <:+: lineImage palette options line := by
  rw [lineImage, h, if_pos rfl]
  exact not_infix_remapped options.variant _

/-! ### The lines of a woven text -/

namespace Woven

variable {w : Weave} {headed : Bool} {contents written : List Text}

theorem mem_cases (h : Woven w headed contents written) {line : Text} (hmem : line ∈ written) :
    line = [] ∨ (∃ entry, w.entry? = some entry ∧ line = lookupGuard ++ entry)
      ∨ (∃ statement, w.statement? = some statement ∧ w.Guarded statement line)
      ∨ ∃ content ∈ contents, w.Guarded (w.image content) line := by
  induction h with
  | nil => simp at hmem
  | @cons headed content guarded below rest written himage hbelow _ ih =>
      rcases List.mem_append.1 hmem with habove | hmem
      · unfold Weave.above at habove
        split at habove
        · rename_i entry hentry
          split at habove
          · rcases List.mem_cons.1 habove with rfl | hline
            · exact .inl rfl
            · exact .inr (.inl ⟨entry, hentry, List.mem_singleton.1 hline⟩)
          · simp at habove
        · simp at habove
      · rcases List.mem_cons.1 hmem with rfl | hmem
        · exact .inr (.inr (.inr ⟨content, List.mem_cons_self, himage⟩))
        · rcases List.mem_append.1 hmem with hline | hrest
          · cases hbelow with
            | bound hsome _ hbound =>
                rcases List.mem_cons.1 hline with rfl | hline
                · exact .inr (.inr (.inl ⟨_, hsome, hbound⟩))
                · exact .inl (List.mem_singleton.1 hline)
            | plain => simp at hline
          · rcases ih hrest with hnil | hentry | hbound | ⟨other, hother, himage⟩
            · exact .inl hnil
            · exact .inr (.inl hentry)
            · exact .inr (.inr (.inl hbound))
            · exact .inr (.inr (.inr ⟨other, List.mem_cons_of_mem _ hother, himage⟩))

theorem exists_image (h : Woven w headed contents written) {content : Text} (hmem : content ∈ contents) :
    ∃ guarded ∈ written, w.Guarded (w.image content) guarded := by
  induction h with
  | nil => simp at hmem
  | @cons headed line guarded below rest written himage _ _ ih =>
      rcases List.mem_cons.1 hmem with rfl | hmem
      · exact ⟨guarded, by simp, himage⟩
      · obtain ⟨other, hother, himage⟩ := ih hmem
        exact ⟨other, by simp [hother], himage⟩

/-- Where there is a stage the statement is written. -/
theorem exists_bound (h : Woven w headed contents written) {statement : Text}
    (hstatement : w.statement? = some statement) (hstage : constructorCount headed contents ≠ 0) :
    ∃ bound ∈ written, w.Guarded statement bound := by
  induction h with
  | nil => exact absurd rfl hstage
  | @cons headed line guarded below rest written _ hbelow _ ih =>
      cases hbelow with
      | bound hsome _ hbound =>
          obtain rfl := Option.some.inj (hstatement.symm.trans hsome)
          exact ⟨_, by simp, hbound⟩
      | plain hplain =>
          have hline : (headed && isConstructorLine line) = false :=
            hplain.resolve_left (by simp [hstatement])
          rw [constructorCount, hline] at hstage
          obtain ⟨bound, hmem, hbound⟩ := ih (by simpa using hstage)
          exact ⟨bound, by simp [hmem], hbound⟩

/-- Where there is no stage none is written. -/
theorem constructorCount_eq_zero (h : Woven w headed contents written)
    (hheading : ∀ line ∈ contents, ∀ guarded, w.Guarded (w.image line) guarded →
      (guarded = stageHeading ↔ line = stageHeading))
    (hconstructor : ∀ line ∈ contents, ∀ guarded, w.Guarded (w.image line) guarded →
      isConstructorLine guarded = isConstructorLine line)
    (hentry : ∀ entry, w.entry? = some entry → lookupGuard ++ entry ≠ stageHeading)
    (hstage : constructorCount headed contents = 0) : constructorCount headed written = 0 := by
  induction h with
  | nil => rfl
  | @cons headed line guarded below rest written himage hbelow _ ih =>
      rw [List.forall_mem_cons] at hheading hconstructor
      rw [constructorCount, Nat.add_eq_zero_iff] at hstage
      have hline : (headed && isConstructorLine line) = false := by
        cases hheaded : headed && isConstructorLine line with
        | false => rfl
        | true => simp [hheaded] at hstage
      have hbelow : below = [] := by
        cases hbelow with
        | bound _ htrue _ => simp [hline] at htrue
        | plain => rfl
      have hnext : (guarded == stageHeading) = (line == stageHeading) := by
        rw [Bool.eq_iff_iff, beq_iff_eq, beq_iff_eq]
        exact hheading.1 guarded himage
      have hrest : constructorCount (guarded == stageHeading) written = 0 := by
        rw [hnext]
        exact ih hheading.2 hconstructor.2 hstage.2
      have hempty : isConstructorLine [] = false ∧ ([] == stageHeading) = false := by decide
      subst hbelow
      rw [Weave.above]
      split
      · rename_i entry hsome
        split
        · have hother : (lookupGuard ++ entry == stageHeading) = false := by simpa using hentry entry hsome
          simp [constructorCount, hempty, hother, hrest]
        · simp [constructorCount, hconstructor.1 guarded himage, hline, hrest]
      · simp [constructorCount, hconstructor.1 guarded himage, hline, hrest]

end Woven

/-! ### What the rules find in published lines -/

theorem eq_entryLine_of_entryFor? {palette : Palette} {options : Options} {stem : Text} {contents : List Text}
    {entry : Text} (h : entryFor? palette options stem contents = some entry) :
    lookupGuard ++ entry = entryLine stem := by
  unfold entryFor? at h
  split at h
  · contradiction
  · rw [← Option.some.inj h, entryLine]

section Published

variable {palette : Palette} (hvalid : palette.Valid) {options : Options} {stem : Text}
  {contents written : List Text} (h : Woven (weaveOf palette options stem contents) false contents written)

include hvalid h

/-- A needle with a quote that neither an image nor the entry holds is in none of the lines. -/
theorem not_infix_woven {early late : Text} (hearly : ')' ∉ early)
    (himages : ∀ content ∈ contents, ¬ early ++ '"' :: late <:+: lineImage palette options content)
    (hentry : ¬ early ++ '"' :: late <:+: entryLine stem) {line : Text} (hmem : line ∈ written) :
    ¬ early ++ '"' :: late <:+: line := by
  have hselection := writtenIn_selectionOf hvalid options.variant
  have hplain : ∀ t : Text, '"' ∉ t → ¬ early ++ '"' :: late <:+: t :=
    fun t ht hoccurs => ht (hoccurs.subset (by simp))
  rcases h.mem_cases hmem with rfl | ⟨entry, hsome, rfl⟩ | ⟨statement, hsome, hbound⟩ | ⟨content, hcontent, himage⟩
  · exact hplain [] (by simp)
  · rw [eq_entryLine_of_entryFor? hsome]
    exact hentry
  · have hquote := (statementFor?_eq_some hvalid hsome).2.1
    exact fun hoccurs => hplain statement hquote ((infix_guarded_iff hselection hbound hearly).1 hoccurs)
  · exact fun hoccurs => himages content hcontent ((infix_guarded_iff hselection himage hearly).1 hoccurs)

/-- No bitmap is left, unless the stem has a path. -/
theorem remapped_woven (hremap : options.remapAssetPath = true) (hstem : '/' ∉ stem) {line : Text}
    (hmem : line ∈ written) : remapped options.variant line = line := by
  have hopening : bitmapOpening = [] ++ '"' :: (imageWord ++ ['/']) := by decide
  have hclear := not_infix_woven hvalid h List.not_mem_nil
    (fun content _ => hopening ▸ bitmap_not_infix_lineImage palette hremap content)
    (fun hoccurs => slash_not_mem_entryLine hstem (hoccurs.subset (by simp))) hmem
  rw [← hopening] at hclear
  exact remapped_of_clear options.variant hclear

variable (hcontents : ∀ content ∈ contents, Unbroken content)

include hcontents

/-- The statement is there, or there is no stage to write it below. -/
theorem alias_lines_woven (hvariant : options.variant = .aliased) :
    (Rule.paletteAlias palette.paletteGlobal).lines stem written = written := by
  have hselection := writtenIn_selectionOf hvalid options.variant
  have hfound : ∀ line ∈ written, aliasStatement palette.paletteGlobal <:+: line →
      (Rule.paletteAlias palette.paletteGlobal).lines stem written = written := by
    intro line hmem hoccurs
    have hany : written.any (Text.occursIn (aliasStatement palette.paletteGlobal)) = true :=
      List.any_eq_true.2 ⟨line, hmem, Text.occursIn_iff.2 hoccurs⟩
    rw [Rule.lines, Rule.blocks, blocksUnless, if_pos hany, Block.flatMap_lines_single]
  have hstatement : (weaveOf palette options stem contents).statement?
      = statementFor? palette options contents := rfl
  rw [statementFor?, hvariant] at hstatement
  dsimp only at hstatement
  split at hstatement
  · -- It was there before publishing, and images and guards keep it.
    rename_i hany
    obtain ⟨line, hmem, hoccurs⟩ := List.any_eq_true.1 hany
    rw [Text.occursIn_iff] at hoccurs
    obtain ⟨guarded, hguarded, himage⟩ := h.exists_image hmem
    apply hfound guarded hguarded
    have himage' := (aliasStatement_infix_lineImage_iff hvalid options (hcontents line hmem)).2 hoccurs
    exact himage'.trans (suffix_of_guardedBy himage).isInfix
  · by_cases hstage : constructorCount false contents = 0
    · have hnone : constructorCount false written = 0 := by
        refine h.constructorCount_eq_zero (fun line hmem guarded himage => ?_) (fun line hmem guarded himage => ?_)
          (fun entry _ => ?_) hstage
        · have hheading : throughRegistration? stageHeading = none := by decide
          have hplain : 'f' ∉ stageHeading ∧ '"' ∉ stageHeading := by decide
          exact (guarded_eq_iff hselection himage (by decide : '/' ∈ stageHeading.head?) (by decide) hheading).trans
            (lineImage_eq_iff hvalid options hplain.1 hplain.2 (hcontents line hmem))
        · exact (isConstructorLine_guarded hselection himage).trans
            (isConstructorLine_lineImage hvalid options (hcontents line hmem))
        · intro heq
          have hhead : (lookupGuard ++ entry).head? = some 'F' := rfl
          rw [heq] at hhead
          exact absurd hhead (by decide)
      rw [Rule.lines, Rule.blocks, blocksUnless, aliasBlocks_of_constructorCount _ hnone, ite_self,
        Block.flatMap_lines_single]
    · obtain ⟨bound, hmem, hbound⟩ := h.exists_bound hstatement hstage
      exact hfound bound hmem (suffix_of_guardedBy hbound).isInfix

/-- No configured fill is left. -/
theorem swept_woven {line : Text} (hmem : line ∈ written) :
    swept (fillSwapsOf options.variant palette) line = line := by
  have hfills := fillSwaps_of_valid hvalid options.variant
  apply hfills.swept_of_clear
  intro color hcolor
  have hearly : ')' ∉ fillHead ++ ['('] := by decide
  rw [fillLiteral_eq]
  apply not_infix_woven hvalid h hearly _ _ hmem
  · intro content hcontent
    rw [← fillLiteral_eq]
    exact literal_not_infix_lineImage hvalid options hcolor (hcontents content hcontent)
  · intro hoccurs
    obtain ⟨digits, rfl⟩ := configuredColor_eq_cons hvalid options hcolor
    apply not_infix_entryLine stem
    exact List.IsInfix.trans ⟨fillHead, digits ++ '"' :: ')' :: fillTail, by simp⟩ hoccurs

end Published

/-! ### Lookup entries and gates -/

/-- A lookup entry is written once. -/
theorem lookup_lines_lines (stem : Text) (contents : List Text) :
    Rule.fileIdLookup.lines stem (Rule.fileIdLookup.lines stem contents)
      = Rule.fileIdLookup.lines stem contents := by
  have hkept : ∀ contents : List Text, contents.any (Text.occursIn (lookupEntry stem)) = true →
      Rule.fileIdLookup.lines stem contents = contents := by
    intro contents hany
    rw [Rule.lines, Rule.blocks, blocksUnless, if_pos hany, Block.flatMap_lines_single]
  cases hany : contents.any (Text.occursIn (lookupEntry stem)) with
  | true => rw [hkept contents hany, hkept contents hany]
  | false =>
      have hwritten : Rule.fileIdLookup.lines stem contents
          = (contents.map (lookupBlock (lookupEntry stem))).flatMap Block.lines := by
        rw [Rule.lines, Rule.blocks, blocksUnless, hany]
        rfl
      by_cases hwiring : wiringLine ∈ contents
      · refine hkept _ (List.any_eq_true.2 ⟨entryLine stem, ?_, Text.occursIn_iff.2 ?_⟩)
        · rw [hwritten]
          refine List.mem_flatMap.2 ⟨_, List.mem_map_of_mem hwiring, ?_⟩
          rw [lookupBlock, if_pos rfl]
          exact List.mem_cons_of_mem _ List.mem_cons_self
        · exact (List.suffix_append lookupGuard (lookupEntry stem)).isInfix
      · have hsingle : contents.map (lookupBlock (lookupEntry stem)) = contents.map .single := by
          apply List.map_congr_left
          intro content hmem
          rw [lookupBlock, if_neg]
          rintro rfl
          exact hwiring hmem
        rw [hsingle, Block.flatMap_lines_single] at hwritten
        rw [hwritten, hwritten]

/-- Writing the entry leaves gates settled if they read nothing in it. -/
theorem settled_lookup_lines {gate : LayerGate} {selection : Text} {contents : List Text}
    (h : gate.Settled selection none contents) {stem : Text} (hstem : LayerGate.Mute (entryLine stem)) :
    gate.Settled selection none (Rule.fileIdLookup.lines stem contents) := by
  have hempty : LayerGate.Mute [] := ⟨by decide, by simp⟩
  rw [Rule.lines, Rule.blocks, blocksUnless]
  split
  · rwa [Block.flatMap_lines_single]
  · have hblocks : (contents.map (lookupBlock (lookupEntry stem))).flatMap Block.lines
        = contents.flatMap fun content =>
          (if content = wiringLine then [[], entryLine stem] else []) ++ [content] := by
      rw [List.flatMap_map]
      congr 1
      funext content
      rw [lookupBlock]
      split
      · rename_i hwiring
        rw [hwiring]
        rfl
      · rfl
    rw [hblocks]
    apply h.flatMap
    intro content line hmem
    split at hmem
    · rcases List.mem_cons.1 hmem with rfl | hline
      · exact hempty
      · rw [List.mem_singleton.1 hline]
        exact hstem
    · simp at hmem

end CanvasExport
