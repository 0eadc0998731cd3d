/-
Module: CanvasExport.Proofs.Publish.LineEndings
Layer: Proofs
Purpose: Publishing under another line ending. The rules read contents and write blocks, so a run over a text and
  a run over the same text with CRLF breaks do the same to the same lines; the marker is found and stripped at
  the same places. The two runs agree in everything but the breaks of the text that they write.
Main exports: stripMarker_withCrlf, Pipeline.source?_withCrlf, Pipeline.applyRules_withEnding,
  Pipeline.publishDocument_withCrlf
-/
import CanvasExport.Proofs.Publish.Run

namespace CanvasExport

/-! ### The marker under another line ending -/

theorem unbroken_marker : Unbroken marker := by
  decide

/-- A needle that holds neither the line feed nor the first character put in its place is cut off alike. -/
theorem strip?_flatMap_break {needle : Text} (hlf : '\n' ∉ needle) {c : Char} (hc : c ∉ needle) (rest t : Text) :
    Text.strip? needle (t.flatMap fun d => if d = '\n' then c :: rest else [d])
      = (Text.strip? needle t).map (List.flatMap fun d => if d = '\n' then c :: rest else [d]) := by
  induction needle generalizing t with
  | nil => rfl
  | cons n needle ih =>
      simp only [List.mem_cons, not_or] at hlf hc
      cases t with
      | nil => rfl
      | cons d t =>
          by_cases hd : d = '\n'
          · subst hd
            simp [Text.strip?, Ne.symm hlf.1, Ne.symm hc.1]
          · by_cases hn : n = d
            · subst hn
              simp [Text.strip?, hd, ih hlf.2 hc.2]
            · simp [Text.strip?, hd, hn]

theorem strip?_withCrlf {needle : Text} (h : Unbroken needle) (t : Text) :
    Text.strip? needle (withCrlf t) = (Text.strip? needle t).map withCrlf := by
  have hmem : ∀ c, endsLine (some c) = true → c ∉ needle := fun c hc hmem => by simp [h c hmem] at hc
  exact strip?_flatMap_break (hmem '\n' rfl) (hmem '\r' rfl) ['\n'] t

theorem stripEnd?_withCrlf {needle : Text} (h : Unbroken needle) (t : Text) :
    Text.stripEnd? needle (withCrlf t) = (Text.stripEnd? needle t).map withCrlf := by
  have hmem : ∀ c, endsLine (some c) = true → c ∉ needle.reverse := fun c hc hmem => by
    simp [h c (List.mem_reverse.1 hmem)] at hc
  -- Read from its end, a text with CRLF breaks has the line feed first.
  have hreverse : ∀ t : Text,
      (withCrlf t).reverse = t.reverse.flatMap fun d => if d = '\n' then ['\n', '\r'] else [d] := by
    intro t
    rw [withCrlf, List.reverse_flatMap]
    congr 1
    funext d
    by_cases hd : d = '\n' <;> simp [hd, LineEnding.text]
  rw [Text.stripEnd?, Text.stripEnd?, hreverse, strip?_flatMap_break (hmem '\n' rfl) (hmem '\n' rfl)]
  cases hstrip : Text.strip? needle.reverse t.reverse with
  | none => rfl
  | some rest =>
      have hrest := hreverse rest.reverse
      rw [List.reverse_reverse] at hrest
      simp only [Option.map_some, ← hrest, List.reverse_reverse]

theorem dropFirstBreak_withCrlf {t : Text} (h : '\r' ∉ t) :
    dropFirstBreak (withCrlf t) = withCrlf (dropFirstBreak t) := by
  cases t with
  | nil => rfl
  | cons c t =>
      have hr : c ≠ '\r' := fun heq => h (heq ▸ List.mem_cons_self)
      by_cases hn : c = '\n'
      · subst hn
        rfl
      · have hplain : endsLine (some c) = false := by simp [endsLine, hn, hr]
        have hcons : withCrlf (c :: t) = c :: withCrlf t := by simp [withCrlf, hn]
        rw [dropFirstBreak, dropFirstBreak, hcons, dropLineBreak?_cons hplain, dropLineBreak?_cons hplain, ← hcons]

/-- Only a text that ends in the needle loses it. -/
theorem stripEnd?_eq_none_iff {needle t : Text} : Text.stripEnd? needle t = none ↔ ¬ needle <:+ t := by
  constructor
  · rintro hnone ⟨rest, hrest⟩
    rw [Text.stripEnd?_eq_some_iff.2 hrest.symm] at hnone
    contradiction
  · intro hsuffix
    cases hstrip : Text.stripEnd? needle t with
    | none => rfl
    | some rest => exact absurd ⟨rest, (Text.stripEnd?_eq_some_iff.1 hstrip).symm⟩ hsuffix

theorem dropLastBreak_withCrlf {t : Text} (h : '\r' ∉ t) :
    dropLastBreak (withCrlf t) = withCrlf (dropLastBreak t) := by
  have hcrlf : Text.stripEnd? LineEnding.crlf.text t = none :=
    stripEnd?_eq_none_iff.2 fun hsuffix => h (hsuffix.subset (by decide))
  rcases List.eq_nil_or_concat t with rfl | ⟨rest, c, rfl⟩
  · rfl
  · rw [List.concat_eq_append] at h hcrlf ⊢
    by_cases hn : c = '\n'
    · subst hn
      have hlf : Text.stripEnd? LineEnding.lf.text (rest ++ ['\n']) = some rest := Text.stripEnd?_eq_some_iff.2 rfl
      have hnew : Text.stripEnd? LineEnding.crlf.text (withCrlf (rest ++ ['\n'])) = some (withCrlf rest) :=
        Text.stripEnd?_eq_some_iff.2 (by simp [withCrlf, LineEnding.text])
      rw [dropLastBreak, dropLastBreak, hnew, hcrlf, hlf]
      rfl
    · have hlast : ∀ s : Text, Text.stripEnd? LineEnding.crlf.text (s ++ [c]) = none
          ∧ Text.stripEnd? LineEnding.lf.text (s ++ [c]) = none := by
        intro s
        have hlf : ¬ LineEnding.lf.text <:+ s ++ [c] := by
          rw [LineEnding.text, List.singleton_suffix_iff_getLast?_eq_some]
          simpa using hn
        refine ⟨stripEnd?_eq_none_iff.2 fun hsuffix => hlf ?_, stripEnd?_eq_none_iff.2 hlf⟩
        exact List.IsSuffix.trans (by decide) hsuffix
      have hcons : withCrlf (rest ++ [c]) = withCrlf rest ++ [c] := by simp [withCrlf, hn]
      rw [dropLastBreak, dropLastBreak, hcons, (hlast _).1, (hlast _).2, (hlast _).1, (hlast _).2, ← hcons]
      rfl

theorem suffix_of_dropFirstBreak (t : Text) : dropFirstBreak t <:+ t := by
  unfold dropFirstBreak
  split
  · rename_i lineBreak rest hdrop
    exact ⟨lineBreak, append_of_dropLineBreak? hdrop⟩
  · exact List.suffix_rfl

theorem prefix_of_dropLastBreak (t : Text) : dropLastBreak t <+: t := by
  unfold dropLastBreak
  split
  · rename_i rest hstrip
    exact ⟨_, (Text.stripEnd?_eq_some_iff.1 hstrip).symm⟩
  · cases hstrip : Text.stripEnd? LineEnding.lf.text t with
    | none => exact List.prefix_rfl
    | some rest => exact ⟨_, (Text.stripEnd?_eq_some_iff.1 hstrip).symm⟩

/-- The text without a marker at its head. -/
def stripFirstMarker (t : Text) : Text :=
  ((Text.strip? marker t).map dropFirstBreak).getD t

/-- The text without a marker at its end. -/
def stripLastMarker (t : Text) : Text :=
  ((Text.stripEnd? marker t).map dropLastBreak).getD t

theorem stripMarker_eq (document : Text) : stripMarker document = stripLastMarker (stripFirstMarker document) := by
  unfold stripMarker stripFirstMarker stripLastMarker
  cases Text.strip? marker document with
  | none =>
      dsimp only [Option.map_none, Option.getD_none]
      cases Text.stripEnd? marker document <;> rfl
  | some below =>
      dsimp only [Option.map_some, Option.getD_some]
      cases Text.stripEnd? marker (dropFirstBreak below) <;> rfl

theorem suffix_of_stripFirstMarker (t : Text) : stripFirstMarker t <:+ t := by
  unfold stripFirstMarker
  cases hstrip : Text.strip? marker t with
  | none => exact List.suffix_rfl
  | some below => exact (suffix_of_dropFirstBreak below).trans ⟨_, (Text.strip?_eq_some_iff.1 hstrip).symm⟩

theorem prefix_of_stripLastMarker (t : Text) : stripLastMarker t <+: t := by
  unfold stripLastMarker
  cases hstrip : Text.stripEnd? marker t with
  | none => exact List.prefix_rfl
  | some above => exact (prefix_of_dropLastBreak above).trans ⟨_, (Text.stripEnd?_eq_some_iff.1 hstrip).symm⟩

/-- Stripping takes from the ends only. -/
theorem infix_of_stripMarker (document : Text) : stripMarker document <:+: document := by
  rw [stripMarker_eq]
  exact (prefix_of_stripLastMarker _).isInfix.trans (suffix_of_stripFirstMarker document).isInfix

theorem stripFirstMarker_withCrlf {t : Text} (h : '\r' ∉ t) :
    stripFirstMarker (withCrlf t) = withCrlf (stripFirstMarker t) := by
  unfold stripFirstMarker
  rw [strip?_withCrlf unbroken_marker]
  cases hstrip : Text.strip? marker t with
  | none => rfl
  | some below =>
      rw [Text.strip?_eq_some_iff.1 hstrip] at h
      exact dropFirstBreak_withCrlf fun hmem => h (List.mem_append_right _ hmem)

theorem stripLastMarker_withCrlf {t : Text} (h : '\r' ∉ t) :
    stripLastMarker (withCrlf t) = withCrlf (stripLastMarker t) := by
  unfold stripLastMarker
  rw [stripEnd?_withCrlf unbroken_marker]
  cases hstrip : Text.stripEnd? marker t with
  | none => rfl
  | some above =>
      rw [Text.stripEnd?_eq_some_iff.1 hstrip] at h
      exact dropLastBreak_withCrlf fun hmem => h (List.mem_append_left _ hmem)

/-- Both ends are stripped alike; what is left in between holds no carriage return either. -/
theorem stripMarker_withCrlf {document : Text} (h : '\r' ∉ document) :
    stripMarker (withCrlf document) = withCrlf (stripMarker document) := by
  have hfirst : '\r' ∉ stripFirstMarker document :=
    fun hmem => h ((suffix_of_stripFirstMarker document).subset hmem)
  rw [stripMarker_eq, stripMarker_eq, stripFirstMarker_withCrlf h, stripLastMarker_withCrlf hfirst]

theorem isPublished_withCrlf (document : Text) : isPublished (withCrlf document) = isPublished document := by
  have hhead : marker.isPrefixOf (withCrlf document) = marker.isPrefixOf document := by
    have hstrip := strip?_withCrlf unbroken_marker document
    rw [Bool.eq_iff_iff, List.isPrefixOf_iff_prefix, List.isPrefixOf_iff_prefix]
    constructor
    · rintro ⟨rest, hrest⟩
      rw [Text.strip?_eq_some_iff.2 hrest.symm] at hstrip
      obtain ⟨below, hbelow, -⟩ := Option.map_eq_some_iff.1 hstrip.symm
      exact ⟨below, (Text.strip?_eq_some_iff.1 hbelow).symm⟩
    · rintro ⟨below, rfl⟩
      rw [withCrlf_append, withCrlf_of_unbroken unbroken_marker]
      exact List.prefix_append _ _
  have hend : marker.isSuffixOf (withCrlf document) = marker.isSuffixOf document := by
    have hstrip := stripEnd?_withCrlf unbroken_marker document
    rw [Bool.eq_iff_iff, List.isSuffixOf_iff_suffix, List.isSuffixOf_iff_suffix]
    constructor
    · rintro ⟨rest, hrest⟩
      rw [Text.stripEnd?_eq_some_iff.2 hrest.symm] at hstrip
      obtain ⟨above, habove, -⟩ := Option.map_eq_some_iff.1 hstrip.symm
      exact ⟨above, (Text.stripEnd?_eq_some_iff.1 habove).symm⟩
    · rintro ⟨above, rfl⟩
      rw [withCrlf_append, withCrlf_of_unbroken unbroken_marker]
      exact List.suffix_append _ _
  rw [isPublished, isPublished, hhead, hend]

namespace Pipeline

theorem source?_withCrlf (pipeline : Pipeline) {document : Text} (h : '\r' ∉ document) :
    pipeline.source? (withCrlf document) = (pipeline.source? document).map withCrlf := by
  rw [source?, source?, isPublished_withCrlf]
  split
  · split
    · rw [stripMarker_withCrlf h]
      rfl
    · rfl
  · rfl

theorem not_mem_source? {pipeline : Pipeline} {document source : Text} (h : '\r' ∉ document)
    (hsource : pipeline.source? document = some source) : '\r' ∉ source := by
  unfold source? at hsource
  split at hsource
  · split at hsource
    · obtain rfl := Option.some.inj hsource
      exact fun hmem => h ((infix_of_stripMarker document).subset hmem)
    · contradiction
  · exact Option.some.inj hsource ▸ h

/-! ### Two runs in step -/

/-- Rules over the same lines with other breaks write the same blocks and count the same replacements. -/
theorem applyRules_withEnding {rules : List Rule} (hrules : ∀ rule ∈ rules, rule.Sound) (policy : UnmatchedPolicy)
    (stem : Text) {ls : Lines} (hls : ls.Unbroken) :
    applyRules policy ⟨stem, .crlf⟩ rules (ls.withEnding .crlf).text
      = (applyRules policy ⟨stem, .lf⟩ rules (ls.withEnding .lf).text).map fun published =>
        { published with text := withCrlf published.text } := by
  induction rules generalizing ls with
  | nil =>
      simp only [applyRules, Logged.of, Logged.map, Except.map, withCrlf_text hls]
  | cons rule rules ih =>
      rw [List.forall_mem_cons] at hrules
      have hunbroken : ∀ ending, (ls.withEnding ending).Unbroken := fun ending =>
        (Lines.unbroken_withEnding ending).2 hls
      have hcrlf := Rule.apply_lines hrules.1 (hunbroken .crlf) ⟨stem, .crlf⟩
      have hlf := Rule.apply_lines hrules.1 (hunbroken .lf) ⟨stem, .lf⟩
      rw [Lines.contents_withEnding, ← Lines.withEnding_write _ .lf] at hcrlf hlf
      have hrest := ih hrules.2 (Lines.unbroken_write_blocks hrules.1 hls .lf stem)
      unfold applyRules
      simp only [hcrlf, hlf, hrest]
      split
      · rfl
      · simp only [Logged.map_after, Logged.map_map]

/-- Publishing a document with CRLF breaks publishes the same document with CRLF breaks: the outcome is of the
    same kind, with the same error or the same replacements, after the same events. -/
theorem publishDocument_withCrlf {palette : Palette} {options : Options} {pipeline : Pipeline}
    (hcreate : Pipeline.create palette options = .ok pipeline) {document : Text} (hcr : '\r' ∉ document)
    (hlf : ∀ source, pipeline.source? document = some source → '\n' ∈ source) (stem : Text) :
    pipeline.publishDocument (withCrlf document) stem
      = (pipeline.publishDocument document stem).map fun published =>
        { published with text := withCrlf published.text } := by
  unfold publishDocument
  rw [pipeline.source?_withCrlf hcr]
  cases hsource : pipeline.source? document with
  | none => rfl
  | some source =>
      have hsourcecr := not_mem_source? hcr hsource
      have hls : (Lines.ofText source).Unbroken := Lines.unbroken_ofText (tidy_of_not_mem hsourcecr)
      have htext : ((Lines.ofText source).withEnding .lf).text = source := by
        rw [Lines.withEnding_ofText hsourcecr, Lines.text_ofText]
      have hcrlftext : ((Lines.ofText source).withEnding .crlf).text = withCrlf source := by
        rw [← withCrlf_text hls, htext]
      have hending : LineEnding.ofText source = .lf := by
        rw [LineEnding.ofText, if_neg]
        rw [Text.occursIn_iff]
        exact fun hoccurs => hsourcecr (hoccurs.subset List.mem_cons_self)
      have hcrlfending : LineEnding.ofText (withCrlf source) = .crlf := by
        obtain ⟨above, below, habove⟩ := List.append_of_mem (hlf source hsource)
        rw [LineEnding.ofText, if_pos]
        rw [Text.occursIn_iff, habove]
        exact ⟨withCrlf above, withCrlf below, by simp [withCrlf, LineEnding.text]⟩
      have hrun := applyRules_withEnding (sound_of_create hcreate) pipeline.options.onUnmatched stem hls
      rw [hcrlftext, htext] at hrun
      have hmark : ∀ t, mark .crlf (withCrlf t) = withCrlf (mark .lf t) := by
        intro t
        rw [mark, mark, withCrlf_append, withCrlf_append, withCrlf_of_unbroken unbroken_marker]
        rfl
      simp only [Option.map_some, DocumentContext.ofDocument, hending, hcrlfending, hrun, Logged.map_map, hmark]

/-- A tagged layer under CRLF breaks: the guard is put in front of the line, and the marker on a line of its own. -/
theorem publishDocument_withCrlf_layer :
    (publishDocument ⟨.standard, Rule.listFor .standard .aliased true⟩
        (withCrlf "// figure1hair2\nthis.addTween();".toList) "walk".toList).outcome
      = .ok ⟨"// figure1hair2\r\nif (this.assetPalette.figure == 1 && ".toList
          ++ "this.assetPalette.hair == 2)this.addTween();\r\n// Published.".toList,
        [(.paletteAlias, 0), (.paletteColors, 0), (.layerVisibility, 1), (.assetPath, 0), (.fileIdLookup, 0)]⟩ := by
  have hcreate : Pipeline.create .standard .standard
      = .ok ⟨.standard, Rule.listFor .standard .aliased true⟩ := by decide +kernel
  have hsource : source? ⟨.standard, Rule.listFor .standard .aliased true⟩ "// figure1hair2\nthis.addTween();".toList
      = some "// figure1hair2\nthis.addTween();".toList := by decide +kernel
  rw [publishDocument_withCrlf hcreate (by decide)]
  · decide +kernel
  · intro source h
    obtain rfl := Option.some.inj (hsource.symm.trans h)
    decide

end Pipeline

end CanvasExport
