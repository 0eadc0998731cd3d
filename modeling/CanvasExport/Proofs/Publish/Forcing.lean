/-
Module: CanvasExport.Proofs.Publish.Forcing
Layer: Proofs
Purpose: The markers of a document that is published by force. Stripping takes one marker and one line break off
  either end and no more; no rule brings a marker to an end of a text, whatever its line breaks are, so a marker that
  stands there in the published body is one that stripping has left.
Main exports: stripMarker_split, MarkedAlike, Recognizer.markedAlike_script, Rule.markedAlike_apply,
  Rule.unmarking_apply, Pipeline.marker_of_forced, Pipeline.not_marker_of_forced
-/
import CanvasExport.Proofs.Publish.Exit
import CanvasExport.Proofs.Publish.Marking
import CanvasExport.Proofs.Publish.Policy
import CanvasExport.Proofs.Rule.Guarding
import CanvasExport.Proofs.Text.Numeral

namespace CanvasExport

/-! ### Stripping -/

/-- A line break or nothing. -/
def OptionalBreak (t : Text) : Prop :=
  t = [] ∨ ∃ ending : LineEnding, t = ending.text

theorem optionalBreak_of_dropLineBreak? {t lineBreak rest : Text} (h : dropLineBreak? t = some (lineBreak, rest)) :
    OptionalBreak lineBreak := by
  revert h
  fun_cases dropLineBreak? t with
  | case1 below =>
      intro h
      exact .inr ⟨.lf, (Prod.mk.inj (Option.some.inj h)).1.symm⟩
  | case2 below =>
      intro h
      exact .inr ⟨.crlf, (Prod.mk.inj (Option.some.inj h)).1.symm⟩
  | case3 => intro h; contradiction

theorem dropFirstBreak_split (t : Text) : ∃ gap, OptionalBreak gap ∧ t = gap ++ dropFirstBreak t := by
  unfold dropFirstBreak
  split
  · rename_i lineBreak rest hdrop
    exact ⟨lineBreak, optionalBreak_of_dropLineBreak? hdrop, (append_of_dropLineBreak? hdrop).symm⟩
  · exact ⟨[], .inl rfl, rfl⟩

theorem dropLastBreak_split (t : Text) : ∃ gap, OptionalBreak gap ∧ t = dropLastBreak t ++ gap := by
  unfold dropLastBreak
  split
  · rename_i rest hstrip
    exact ⟨_, .inr ⟨.crlf, rfl⟩, Text.stripEnd?_eq_some_iff.1 hstrip⟩
  · cases hstrip : Text.stripEnd? LineEnding.lf.text t with
    | none => exact ⟨[], .inl rfl, (List.append_nil t).symm⟩
    | some rest => exact ⟨_, .inr ⟨.lf, rfl⟩, Text.stripEnd?_eq_some_iff.1 hstrip⟩

/-- What is stripped off the head: nothing, or a marker with the line break below it. -/
def StrippedHead (t : Text) : Prop :=
  t = [] ∨ ∃ gap, OptionalBreak gap ∧ t = marker ++ gap

/-- What is stripped off the end: nothing, or a marker with the line break above it. -/
def StrippedEnd (t : Text) : Prop :=
  t = [] ∨ ∃ gap, OptionalBreak gap ∧ t = gap ++ marker

theorem stripFirstMarker_split (t : Text) :
    ∃ head, StrippedHead head ∧ t = head ++ stripFirstMarker t ∧ (marker <+: t → head ≠ []) := by
  rw [stripFirstMarker]
  cases hstrip : Text.strip? marker t with
  | none =>
      refine ⟨[], .inl rfl, rfl, fun hmarked => ?_⟩
      obtain ⟨below, hbelow⟩ := hmarked
      rw [Text.strip?_eq_some_iff.2 hbelow.symm] at hstrip
      contradiction
  | some below =>
      obtain ⟨gap, hgap, hbelow⟩ := dropFirstBreak_split below
      refine ⟨marker ++ gap, .inr ⟨gap, hgap, rfl⟩, ?_, fun _ hnil => ?_⟩
      · rw [Option.map_some, Option.getD_some, List.append_assoc, ← hbelow]
        exact Text.strip?_eq_some_iff.1 hstrip
      · exact absurd (List.append_eq_nil_iff.1 hnil).1 (by decide)

theorem stripLastMarker_split (t : Text) :
    ∃ last, StrippedEnd last ∧ t = stripLastMarker t ++ last ∧ (marker <:+ t → last ≠ []) := by
  rw [stripLastMarker]
  cases hstrip : Text.stripEnd? marker t with
  | none =>
      exact ⟨[], .inl rfl, (List.append_nil t).symm, fun hlast => absurd hlast (stripEnd?_eq_none_iff.1 hstrip)⟩
  | some above =>
      obtain ⟨gap, hgap, habove⟩ := dropLastBreak_split above
      refine ⟨gap ++ marker, .inr ⟨gap, hgap, rfl⟩, ?_, fun _ hnil => ?_⟩
      · rw [Option.map_some, Option.getD_some, ← List.append_assoc, ← habove]
        exact Text.stripEnd?_eq_some_iff.1 hstrip
      · exact absurd (List.append_eq_nil_iff.1 hnil).2 (by decide)

/-- Stripping takes a marker and the line break next to it off either end, and nothing else. -/
theorem stripMarker_split {document : Text} (h : isPublished document = true) :
    ∃ head last, document = head ++ stripMarker document ++ last
      ∧ StrippedHead head ∧ StrippedEnd last ∧ (head ≠ [] ∨ last ≠ []) := by
  obtain ⟨head, hhead, hwhole, hfirst⟩ := stripFirstMarker_split document
  obtain ⟨last, hlast, hrest, hbehind⟩ := stripLastMarker_split (stripFirstMarker document)
  have hsplit : document = head ++ stripMarker document ++ last := by
    rw [stripMarker_eq, List.append_assoc, ← hrest]
    exact hwhole
  refine ⟨head, last, hsplit, hhead, hlast, ?_⟩
  by_cases hnil : head = []
  · refine .inr (hbehind ?_)
    rw [hnil, List.nil_append] at hwhole
    rw [← hwhole]
    rw [isPublished, Bool.or_eq_true, List.isPrefixOf_iff_prefix, List.isSuffixOf_iff_suffix] at h
    exact h.resolve_left fun hmarked => hfirst hmarked hnil
  · exact .inl hnil

/-! ### The marker at the ends of a text -/

/-- The second text has the marker at the ends at which the first one has it. -/
structure MarkedAlike (t t' : Text) : Prop where
  head : marker <+: t' ↔ marker <+: t
  last : marker <:+ t' ↔ marker <:+ t

theorem MarkedAlike.refl (t : Text) : MarkedAlike t t :=
  ⟨Iff.rfl, Iff.rfl⟩

theorem MarkedAlike.trans {t t' t'' : Text} (h : MarkedAlike t t') (h' : MarkedAlike t' t'') : MarkedAlike t t'' :=
  ⟨h'.head.trans h.head, h'.last.trans h.last⟩

/-- The second text starts with the marker where the first one does, and ends with it only if that one does. -/
structure Unmarking (t t' : Text) : Prop where
  head : marker <+: t' ↔ marker <+: t
  last : marker <:+ t' → marker <:+ t

theorem Unmarking.refl (t : Text) : Unmarking t t :=
  ⟨Iff.rfl, id⟩

theorem Unmarking.trans {t t' t'' : Text} (h : Unmarking t t') (h' : Unmarking t' t'') : Unmarking t t'' :=
  ⟨h'.head.trans h.head, h.last ∘ h'.last⟩

theorem MarkedAlike.unmarking {t t' : Text} (h : MarkedAlike t t') : Unmarking t t' :=
  ⟨h.head, h.last.1⟩

/-- Behind a text that is as long as the marker, what follows does not matter for the head. -/
theorem marker_prefix_append_iff {above : Text} (h : marker.length ≤ above.length) (below : Text) :
    marker <+: above ++ below ↔ marker <+: above :=
  ⟨fun hhead => List.prefix_of_prefix_length_le hhead (List.prefix_append _ _) h,
    fun hhead => hhead.trans (List.prefix_append _ _)⟩

namespace Rule

/-! ### Single replacements -/

theorem markedAlike_fillReference (first second above below : Text) :
    MarkedAlike (above ++ (fillReference first ++ below)) (above ++ (fillReference second ++ below)) := by
  have hopen : '(' ∉ marker := by decide
  have hclose : ')' ∉ marker := by decide
  rw [← List.append_assoc, ← List.append_assoc]
  constructor
  · rw [prefix_fillReference_iff hopen, prefix_fillReference_iff hopen]
  · rw [suffix_fillReference_iff hclose, suffix_fillReference_iff hclose]

/-- Swapping fills leaves the ends alone. -/
theorem FillSwap.markedAlike {r : Recognizer} {handles : Text → Prop} (h : FillSwap r handles) (t : Text) :
    MarkedAlike t (r.script t).result := by
  refine Recognizer.related_result h.inline.faithful MarkedAlike.refl MarkedAlike.trans
    (fun before s below hs above => ?_) t
  rw [h.inline.contextFree] at hs
  obtain ⟨color, argument, rest, -, -, -, rfl⟩ := h.found hs
  simpa [Edit.source, Edit.result, fillLiteral] using markedAlike_fillReference _ argument above below

/-- So does pointing bitmaps at the directory of a variant. -/
theorem markedAlike_remapBitmaps (variant : Variant) (t : Text) :
    MarkedAlike t ((remapBitmaps variant.cacheDirectory).script t).result := by
  have hfaithful := (remapBitmaps_inline variant).faithful
  refine Recognizer.related_result hfaithful MarkedAlike.refl MarkedAlike.trans (fun before s below hs above => ?_) t
  rw [remapBitmaps, Recognizer.literal_eq] at hs
  split at hs
  · obtain rfl := Option.some.inj hs
    have hquote : '"' ∉ marker := by decide
    have hread : Script.source [Edit.swap bitmapOpening ('"' :: variant.cacheDirectory)] ++ below
        = '"' :: (imageWord ++ '/' :: below) := by
      rw [bitmapOpening_eq]
      simp [Edit.source]
    have hwritten : Script.result [Edit.swap bitmapOpening ('"' :: variant.cacheDirectory)] ++ below
        = '"' :: (assetWord ++ '/' :: (cacheWord variant ++ '/' :: below)) := by
      rw [cacheDirectory_eq]
      simp [Edit.result]
    rw [hread, hwritten]
    exact ⟨(prefix_append_cons_iff hquote).trans (prefix_append_cons_iff hquote).symm,
      (suffix_bitmap_iff variant above below).symm⟩
  · contradiction

/-- Even the shortest tag is longer than the marker. -/
theorem length_marker_le_tag (gate : LayerGate) : marker.length ≤ gate.tag.length := by
  have hnumeral : 0 < (Text.numeral gate.figure).length := List.length_pos_iff.2 (Text.numeral_ne_nil _)
  have hword : 4 ≤ gate.kind.word.length := by cases gate.kind <;> decide
  have hopening : marker.length ≤ "// figure".toList.length + 5 := by decide
  have hlength : ∀ opening numeral word : Text, 0 < numeral.length → 4 ≤ word.length →
      opening.length + 5 ≤ (opening ++ numeral ++ word).length := by
    intro opening numeral word hnumeral hword
    simp only [List.length_append]
    omega
  exact Nat.le_trans hopening (hlength _ _ _ hnumeral hword)

/-- A guard stands behind a tag, which is longer than the marker, at the start of a line. -/
theorem markedAlike_guard {gate : LayerGate} {t : Text} {layer : TaggedLayer} (h : gate.layer? t = some layer)
    (selection above below : Text) :
    MarkedAlike (above ++ (gate.tag ++ layer.suffix ++ layer.registered.gap) ++ below)
      (above ++ (gate.tag ++ layer.suffix ++ layer.registered.gap)
        ++ (gate.guard selection layer.suffix ++ below)) := by
  obtain ⟨c, rest, -, hstart⟩ := startsLine_of_layer? h
  have hlength : marker.length ≤ (above ++ (gate.tag ++ layer.suffix ++ layer.registered.gap)).length := by
    have htag := length_marker_le_tag gate
    simp only [List.length_append]
    omega
  obtain ⟨front, b, hlead⟩ : ∃ front b, gate.tag ++ layer.suffix ++ layer.registered.gap = front ++ [b] := by
    have hne : gate.tag ++ layer.suffix ++ layer.registered.gap ≠ [] := by simp [gate.tag_ne_nil]
    exact ⟨_, _, (List.dropLast_append_getLast hne).symm⟩
  have hbreak : b ∉ marker := by
    intro hmem
    rw [hlead, lastOr_append] at hstart
    have hwithin : WithinLine (some b) := ⟨b, rfl, unbroken_marker b hmem⟩
    rw [show lastOr (lastOr ' ' front) [b] = b from rfl, startsLine_of_withinLine hwithin] at hstart
    contradiction
  have hclose : ')' ∉ marker := by decide
  have hguard : gate.guard selection layer.suffix ++ below
      = ("if (".toList ++ gate.condition selection layer.suffix) ++ ')' :: below := by
    simp [LayerGate.guard]
  constructor
  · rw [marker_prefix_append_iff hlength, marker_prefix_append_iff hlength]
  · have hbehind : ∀ rest : Text, marker <:+ above ++ (front ++ [b]) ++ rest ↔ marker <:+ rest := by
      intro rest
      rw [← List.append_assoc, List.append_assoc, List.singleton_append, suffix_append_cons_iff hbreak]
    rw [hlead, hbehind, hbehind, hguard, suffix_append_cons_iff hclose]

/-- Guards leave the ends alone. -/
theorem markedAlike_gate (gate : LayerGate) (selection t : Text) :
    MarkedAlike t ((gate.recognizer selection).script t).result := by
  refine Recognizer.related_result (gate.recognizer_faithful selection) MarkedAlike.refl MarkedAlike.trans
    (fun before s below hs above => ?_) t
  obtain ⟨layer, hlayer, rfl⟩ := Option.map_eq_some_iff.1 hs
  have hguard := markedAlike_guard hlayer selection above (layer.registered.line ++ below)
  cases haccessory : gate.kind = .avatar && isAccessory layer.suffix with
  | true =>
      rw [LayerGate.edits_of_accessory selection haccessory]
      exact MarkedAlike.refl _
  | false =>
      rw [LayerGate.edits_of_guarded selection haccessory]
      rcases gate.inserted_cases selection layer with hinserted | ⟨hinserted, -⟩
      · simpa [hinserted, Edit.source, Edit.result] using hguard
      · simpa [hinserted, Edit.source, Edit.result] using MarkedAlike.refl _

theorem exists_ending_eq_cons (ending : LineEnding) : ∃ b rest, ending.text = b :: rest ∧ b ∉ marker := by
  cases ending with
  | lf => exact ⟨'\n', [], rfl, by decide⟩
  | crlf => exact ⟨'\r', ['\n'], rfl, by decide⟩

/-- A lookup entry stands in front of a line whose first character is none of the marker's. -/
theorem markedAlike_insertLookup (ending : LineEnding) (entry t : Text) :
    MarkedAlike t ((insertLookup ending entry).script t).result := by
  refine Recognizer.related_result (insertLookup_faithful ending entry) MarkedAlike.refl MarkedAlike.trans
    (fun before s below hs above => ?_) t
  obtain ⟨inserted, hinserted, rfl⟩ : ∃ inserted, (∃ rest, inserted = ending.text ++ rest)
      ∧ s = [.swap [] inserted, .keep wiringLine] := by
    rw [insertLookup] at hs
    split at hs
    · obtain ⟨rest, -, hs⟩ := Option.bind_eq_some_iff.1 hs
      split at hs
      · refine ⟨_, ⟨lookupGuard ++ entry ++ ending.text, ?_⟩, (Option.some.inj hs).symm⟩
        simp only [List.append_assoc]
      · contradiction
    · contradiction
  obtain ⟨written, rfl⟩ := hinserted
  obtain ⟨b, rest, hending, hbreak⟩ := exists_ending_eq_cons ending
  obtain ⟨wiring, hwiring⟩ : ∃ wiring, wiringLine = '\x7d' :: wiring := ⟨_, rfl⟩
  have hclose : '\x7d' ∉ marker := by decide
  have hread : above ++ (Script.source [.swap [] (ending.text ++ written), .keep wiringLine] ++ below)
      = above ++ '\x7d' :: (wiring ++ below) := by
    simp [Edit.source, hwiring]
  have hwritten : above ++ (Script.result [.swap [] (ending.text ++ written), .keep wiringLine] ++ below)
      = above ++ b :: (rest ++ written ++ '\x7d' :: (wiring ++ below)) := by
    simp [Edit.result, hwiring, hending]
  rw [hread, hwritten]
  constructor
  · rw [prefix_append_cons_iff hbreak, prefix_append_cons_iff hclose]
  · rw [suffix_append_cons_iff hbreak, suffix_append_cons_iff hclose, suffix_append_cons_iff hclose]

theorem prefix_stageHeading_of_stageConstructor? {before : Option Char} {t found : Text}
    (h : stageConstructor? before t = some found) : stageHeading <+: found := by
  rw [stageConstructor?] at h
  split at h
  · obtain ⟨afterHeading, -, h⟩ := Option.bind_eq_some_iff.1 h
    obtain ⟨⟨lineBreak, below⟩, -, h⟩ := Option.bind_eq_some_iff.1 h
    dsimp only at h
    split at h
    · obtain rfl := Option.some.inj h
      exact ⟨lineBreak ++ lineContent below, by rw [List.append_assoc]⟩
    · contradiction
  · contradiction

/-- An alias statement stands below a heading that is longer than the marker, and ends in a line break. -/
theorem unmarking_insertAlias (ending : LineEnding) (statement t : Text) :
    Unmarking t ((insertAlias ending statement).script t).result := by
  refine Recognizer.related_result (insertAlias_faithful ending statement) Unmarking.refl Unmarking.trans
    (fun before s below hs above => ?_) t
  obtain ⟨found, hfound, rfl⟩ := Option.map_eq_some_iff.1 hs
  have hlength : marker.length ≤ (above ++ found).length := by
    have hheading := (prefix_stageHeading_of_stageConstructor? hfound).length_le
    have hmarker : marker.length ≤ stageHeading.length := by decide
    rw [List.length_append]
    omega
  obtain ⟨early, hending⟩ := ending.exists_text_eq_append
  have hlf : '\n' ∉ marker := by decide
  have hread : above ++ (Script.source [.keep found, .swap [] (ending.text ++ statement ++ ending.text)] ++ below)
      = (above ++ found) ++ below := by
    simp [Edit.source]
  have hwritten : above ++ (Script.result [.keep found, .swap [] (ending.text ++ statement ++ ending.text)] ++ below)
      = (above ++ found) ++ ((ending.text ++ statement ++ early) ++ '\n' :: below) := by
    simp [Edit.result, hending]
  rw [hread, hwritten]
  constructor
  · rw [marker_prefix_append_iff hlength, marker_prefix_append_iff hlength]
  · rw [← List.append_assoc, suffix_append_cons_iff hlf]
    exact fun hlast => hlast.trans (List.suffix_append _ _)

/-! ### Rules -/

theorem passes_related {related : Text → Text → Prop} (refl : ∀ t, related t t)
    (trans : ∀ {t t' t''}, related t t' → related t' t'' → related t t'') {steps : List (Text → Script)}
    (h : ∀ pass ∈ steps, ∀ t, related t (pass t).result) (t : Text) :
    related t (Rewrite.passes t steps).text := by
  induction steps generalizing t with
  | nil => exact refl t
  | cons pass steps ih =>
      rw [List.forall_mem_cons] at h
      rw [Rewrite.passes_cons]
      exact trans (h.1 t) (ih h.2 (pass t).result)

/-- Every rule but that for the alias leaves the ends alone. -/
theorem markedAlike_apply {rule : Rule} (h : rule.Sound) (hname : rule.name ≠ .paletteAlias)
    (context : DocumentContext) (t : Text) : MarkedAlike t (rule.apply context t).text := by
  rw [apply_eq_passes]
  refine passes_related MarkedAlike.refl MarkedAlike.trans (fun pass hpass t => ?_) t
  cases rule with
  | paletteAlias global => exact absurd rfl hname
  | paletteColors colors =>
      obtain ⟨entry, hentry, rfl⟩ := List.mem_map.1 hpass
      exact (swapColor_fillSwap (h entry hentry).1 (h entry hentry).2).markedAlike t
  | indexedPaletteColors table =>
      obtain rfl := List.mem_singleton.1 hpass
      exact (swapIndexed_fillSwap h).markedAlike t
  | layerVisibility figures selection =>
      obtain ⟨gate, -, rfl⟩ := List.mem_map.1 hpass
      exact markedAlike_gate gate selection t
  | assetPath directory =>
      obtain ⟨variant, rfl⟩ := h
      obtain rfl := List.mem_singleton.1 hpass
      exact markedAlike_remapBitmaps variant t
  | fileIdLookup =>
      obtain rfl := List.mem_singleton.1 hpass
      rw [lookupScript]
      split
      · rw [Recognizer.result_literal_self (lookupEntry_ne_nil _)]
        exact MarkedAlike.refl t
      · exact markedAlike_insertLookup context.ending _ t

/-- No rule brings a marker to an end, or takes one from the head. -/
theorem unmarking_apply {rule : Rule} (h : rule.Sound) (context : DocumentContext) (t : Text) :
    Unmarking t (rule.apply context t).text := by
  by_cases hname : rule.name = .paletteAlias
  · cases rule with
    | paletteAlias global =>
        have happly : ((paletteAlias global).apply context t).text = (aliasScript context.ending global t).result := rfl
        rw [happly, aliasScript]
        split
        · rw [Recognizer.result_literal_self (aliasStatement_ne_nil global)]
          exact Unmarking.refl t
        · exact unmarking_insertAlias context.ending _ t
    | _ => contradiction
  · exact (markedAlike_apply h hname context t).unmarking

end Rule

/-! ### Forced documents -/

namespace Pipeline

theorem unmarking_draft {rules : List Rule} (hrules : ∀ rule ∈ rules, rule.Sound) (context : DocumentContext)
    (t : Text) : Unmarking t (draft context rules t).text := by
  induction rules generalizing t with
  | nil => exact Unmarking.refl t
  | cons rule rules ih =>
      rw [List.forall_mem_cons] at hrules
      exact (Rule.unmarking_apply hrules.1 context t).trans (ih hrules.2 _)

theorem markedAlike_draft {rules : List Rule} (hrules : ∀ rule ∈ rules, rule.Sound)
    (hnames : ∀ rule ∈ rules, rule.name ≠ .paletteAlias) (context : DocumentContext) (t : Text) :
    MarkedAlike t (draft context rules t).text := by
  induction rules generalizing t with
  | nil => exact MarkedAlike.refl t
  | cons rule rules ih =>
      rw [List.forall_mem_cons] at hrules hnames
      exact (Rule.markedAlike_apply hrules.1 hnames.1 context t).trans (ih hrules.2 hnames.2 _)

theorem ne_paletteAlias_of_indexed {palette : Palette} {remapAssetPath : Bool} :
    ∀ rule ∈ Rule.listFor palette .indexed remapAssetPath, rule.name ≠ .paletteAlias := by
  cases remapAssetPath with
  | false => simp [Rule.listFor, fillRules, Rule.name]
  | true => simp [Rule.listFor, fillRules, Rule.name]

/-- A document that is published by force loses at most one marker at either end, with the line break next to it, and
    the body that the rules make of the rest is given one. The body starts with a marker exactly if stripping has left
    one there. It ends with one only if stripping has left one there, and in the indexed variant, where no statement can
    come behind it, exactly then. -/
theorem marker_of_forced {palette : Palette} {options : Options} {pipeline : Pipeline}
    (hcreate : create palette options = .ok pipeline) (hforce : options.force = true) {document stem : Text}
    (hmarked : isPublished document = true) {published : PublishedDocument}
    (h : (pipeline.publishDocument document stem).outcome = .ok published) :
    (∃ head last, document = head ++ stripMarker document ++ last
        ∧ StrippedHead head ∧ StrippedEnd last ∧ (head ≠ [] ∨ last ≠ []))
      ∧ ∃ body, published.text = body ++ (LineEnding.ofText (stripMarker document)).text ++ marker
        ∧ (marker <+: body ↔ marker <+: stripMarker document)
        ∧ (marker <:+ body → marker <:+ stripMarker document)
        ∧ (options.variant = .indexed → marker <:+ stripMarker document → marker <:+ body) := by
  refine ⟨stripMarker_split hmarked, ?_⟩
  obtain ⟨source, below, hsource, hrun, rfl⟩ := exists_of_publishDocument h
  rw [source?, hmarked, options_of_create hcreate, hforce, if_pos rfl, if_pos rfl] at hsource
  obtain rfl := Option.some.inj hsource
  obtain rfl := eq_draft_of_applyRules hrun
  have hunmarking := unmarking_draft (sound_of_create hcreate) (.ofDocument stem (stripMarker document))
    (stripMarker document)
  refine ⟨_, rfl, hunmarking.head, hunmarking.last, fun hindexed hlast => ?_⟩
  have hnames : ∀ rule ∈ pipeline.rules, rule.name ≠ .paletteAlias := by
    rw [rules_of_create hcreate, hindexed]
    exact ne_paletteAlias_of_indexed
  exact (markedAlike_draft (sound_of_create hcreate) hnames _ _).last.2 hlast

/-- A document with a marker at each end, published again. -/
def twiceMarked : Text :=
  "// Published.\r\nvar a;\n// Published.".toList

theorem marker_of_forced_twiceMarked :
    create .standard { Options.standard with force := true } = .ok (Attempt.again "walk".toList).pipeline
      ∧ isPublished twiceMarked = true
      ∧ ∃ published body,
        ((Attempt.again "walk".toList).pipeline.publishDocument twiceMarked "walk".toList).outcome = .ok published
        ∧ published.text = body ++ ['\n'] ++ marker ∧ ¬ marker <+: body ∧ ¬ marker <:+ body := by
  have hcreate : create .standard { Options.standard with force := true }
      = .ok (Attempt.again "walk".toList).pipeline := by decide +kernel
  have hmarked : isPublished twiceMarked = true := by decide
  have hstrip : stripMarker twiceMarked = "var a;".toList := by decide
  have hpolicy : (Attempt.again "walk".toList).pipeline.options.onUnmatched ≠ .fail := by decide
  obtain ⟨published, hpublished⟩ := Attempt.exists_publish rfl hpolicy twiceMarked
  obtain ⟨-, body, hbody, hhead, hlast, -⟩ := marker_of_forced hcreate rfl hmarked hpublished
  rw [hstrip] at hbody hhead hlast
  exact ⟨hcreate, hmarked, published, body, hpublished, hbody, mt hhead.1 (by decide), mt hlast (by decide)⟩

/-- A document with two markers at its end. -/
def doublyMarked : Text :=
  "var a;\n// Published.\n// Published.".toList

/-- Stripping takes one of two markers at the end, so the published document has the other one above its own. -/
theorem not_marker_of_forced :
    create .standard { Options.standard with force := true } = .ok (Attempt.again "walk".toList).pipeline
      ∧ isPublished doublyMarked = true
      ∧ ∃ published,
        ((Attempt.again "walk".toList).pipeline.publishDocument doublyMarked "walk".toList).outcome = .ok published
        ∧ ¬ ∃ (body : Text) (ending : LineEnding), published.text = body ++ ending.text ++ marker
          ∧ ¬ marker <+: body ∧ ¬ marker <:+ body := by
  have hpolicy : (Attempt.again "walk".toList).pipeline.options.onUnmatched ≠ .fail := by decide
  obtain ⟨published, hpublished⟩ := Attempt.exists_publish rfl hpolicy doublyMarked
  have htext : published.text = "var a;\n// Published.".toList ++ ['\n'] ++ marker := by
    rw [← Attempt.next_of_success hpublished]
    decide +kernel
  refine ⟨by decide +kernel, by decide, published, hpublished, ?_⟩
  rintro ⟨body, ending, hbody, -, hlast⟩
  have hends : body ++ ending.text = "var a;\n// Published.".toList ++ ['\n'] :=
    List.append_cancel_right (hbody.symm.trans htext)
  cases ending with
  | lf =>
      obtain rfl : body = "var a;\n// Published.".toList := List.append_cancel_right hends
      exact hlast (by decide)
  | crlf =>
      -- The line break above the marker has no carriage return.
      have hreturn : body ++ ['\r'] = "var a;\n// Published.".toList := by
        have hsplit : (body ++ ['\r']) ++ ['\n'] = "var a;\n// Published.".toList ++ ['\n'] := by
          rw [List.append_assoc]
          exact hends
        exact List.append_cancel_right hsplit
      have hmem : '\r' ∈ "var a;\n// Published.".toList := hreturn ▸ List.mem_append_right _ List.mem_cons_self
      exact absurd hmem (by decide)

end Pipeline

end CanvasExport
