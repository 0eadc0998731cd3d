/-
Module: CanvasExport.Proofs.Publish.Weave
Layer: Proofs
Purpose: What a published document is made of. Every line of the source has one image, in the order of the source;
  between the images stand the alias statement below stage constructors and the lookup entry above wiring
  lines, and the marker comes last. Each rule is shown to take one woven text to another.
Main exports: Weave, Woven, Woven.map, Woven.gated, Woven.entered, weaveOf, woven_of_publishDocument
-/
import CanvasExport.Proofs.Publish.LineEndings
import CanvasExport.Proofs.Rule.Entry

namespace CanvasExport

open Rule

/-- What publishing may do to lines. -/
structure Weave where
  selection : Text
  gates : List LayerGate
  /-- What becomes of a line behind its guards. -/
  image : Text → Text
  /-- The statement that is written below stage constructors, if it is. -/
  statement? : Option Text
  /-- The entry that is written above wiring lines, if it is. -/
  entry? : Option Text

namespace Weave

/-- A line with guards of the weave's gates in front. -/
def Guarded (w : Weave) : Text → Text → Prop :=
  GuardedBy w.selection w.gates

/-- The lines that are written above a line: an empty one and the entry, above wiring lines. -/
def above (w : Weave) (line : Text) : List Text :=
  match w.entry? with
  | some entry => if line = wiringLine then [[], lookupGuard ++ entry] else []
  | none => []

/-- The lines that are written below a line: the statement, which may be guarded, and an empty one, below stage
    constructors. -/
inductive Below (w : Weave) (headed : Bool) (line : Text) : List Text → Prop
  | bound {statement bound : Text} (hstatement : w.statement? = some statement)
      (hstage : (headed && isConstructorLine line) = true) (hguarded : w.Guarded statement bound) :
      Below w headed line [bound, []]
  | plain (h : w.statement? = none ∨ (headed && isConstructorLine line) = false) : Below w headed line []

end Weave

/-- The lines that are written for the lines of a source; `headed` says whether the line above is a stage
    heading. -/
inductive Woven (w : Weave) : (headed : Bool) → List Text → List Text → Prop
  | nil {headed : Bool} : Woven w headed [] []
  | cons {headed : Bool} {line guarded : Text} {below rest written : List Text}
      (himage : w.Guarded (w.image line) guarded) (hbelow : w.Below headed line below)
      (hrest : Woven w (line == stageHeading) rest written) :
      Woven w headed (line :: rest) (w.above line ++ guarded :: (below ++ written))

/-! ### The alias statement -/

/-- Lines that stay as they are. -/
theorem woven_self (selection : Text) (headed : Bool) (contents : List Text) :
    Woven ⟨selection, [], id, none, none⟩ headed contents contents := by
  induction contents generalizing headed with
  | nil => exact .nil
  | cons line rest ih =>
      have hself : Weave.Guarded ⟨selection, [], id, none, none⟩ line line := guardedBy_self selection [] line
      exact .cons hself (.plain (.inl rfl)) (ih (line == stageHeading))

/-- The blocks of the alias rule. -/
theorem woven_aliasBlocks (selection statement : Text) (headed : Bool) (contents : List Text) :
    Woven ⟨selection, [], id, some statement, none⟩ headed contents
      ((aliasBlocks statement headed contents).flatMap Block.lines) := by
  induction contents generalizing headed with
  | nil => exact .nil
  | cons line rest ih =>
      have hrest := ih (line == stageHeading)
      have hself : ∀ content, Weave.Guarded ⟨selection, [], id, some statement, none⟩ content content :=
        guardedBy_self selection []
      rw [aliasBlocks, List.flatMap_cons]
      cases hstage : headed && isConstructorLine line with
      | true => exact .cons (hself line) (.bound rfl hstage (hself statement)) hrest
      | false => exact .cons (hself line) (.plain (.inr hstage)) hrest

/-! ### Rules that rewrite each line -/

/-- A rewriting of lines that keeps guards in front and leaves the statement and empty lines alone changes the
    images. -/
theorem Woven.map {w : Weave} {f : Text → Text} (hentry : w.entry? = none)
    (hguarded : ∀ content guarded, Unbroken content → w.Guarded content guarded → w.Guarded (f content) (f guarded))
    (hnil : f [] = []) (hstatement : ∀ statement, w.statement? = some statement →
      Unbroken statement ∧ f statement = statement) {headed : Bool} {contents written : List Text}
    (himages : ∀ line ∈ contents, Unbroken (w.image line)) (h : Woven w headed contents written) :
    Woven { w with image := fun line => f (w.image line) } headed contents (written.map f) := by
  induction h with
  | nil => exact .nil
  | @cons headed line guarded below rest written himage hbelow _ ih =>
      rw [List.forall_mem_cons] at himages
      have habove : (w.above line).map f = Weave.above { w with image := fun line => f (w.image line) } line := by
        simp [Weave.above, hentry]
      have hbelow : Weave.Below { w with image := fun line => f (w.image line) } headed line (below.map f) := by
        cases hbelow with
        | bound hsome hstage hbound =>
            obtain ⟨hunbroken, hsame⟩ := hstatement _ hsome
            have hbound := hguarded _ _ hunbroken hbound
            rw [hsame] at hbound
            rw [List.map_cons, List.map_cons, hnil]
            exact .bound hsome hstage hbound
        | plain hplain => exact .plain hplain
      rw [List.map_append, List.map_cons, List.map_append, habove]
      exact .cons (hguarded _ _ himages.1 himage) hbelow (ih himages.2)

/-- Guards in front of registration lines come in front of those that are there. -/
theorem Woven.gated {w : Weave} {gates : List LayerGate} (hentry : w.entry? = none) (hgates : w.gates ⊆ gates)
    {headed : Bool} {contents middle written : List Text} (h : Woven w headed contents middle)
    (hguarded : List.Forall₂ (GuardedBy w.selection gates) middle written) :
    Woven { w with gates } headed contents written := by
  induction h generalizing written with
  | nil =>
      cases hguarded
      exact .nil
  | @cons headed line guarded below rest middle himage hbelow _ ih =>
      have habove : w.above line = [] := by simp [Weave.above, hentry]
      have habove' : Weave.above { w with gates } line = [] := by simp [Weave.above, hentry]
      rw [habove, List.nil_append] at hguarded
      obtain ⟨head, tail, hhead, htail, rfl⟩ := List.forall₂_cons_left_iff.1 hguarded
      have himage : GuardedBy w.selection gates (w.image line) head :=
        GuardedBy.trans hgates (List.Subset.refl _) himage hhead
      obtain ⟨below', tail', hbelow', htail', rfl⟩ : ∃ below' tail', Weave.Below { w with gates } headed line below'
          ∧ List.Forall₂ (GuardedBy w.selection gates) middle tail' ∧ tail = below' ++ tail' := by
        cases hbelow with
        | bound hsome hstage hbound =>
            -- The statement may be guarded, the empty line below it is not.
            obtain ⟨bound', rest', hbound', hrest, rfl⟩ := List.forall₂_cons_left_iff.1 htail
            obtain ⟨empty, tail', ⟨chain, -, hmute, rfl⟩, htail', rfl⟩ := List.forall₂_cons_left_iff.1 hrest
            obtain rfl : chain = [] := hmute.resolve_right (by decide)
            have hbound : GuardedBy w.selection gates _ bound' :=
              GuardedBy.trans hgates (List.Subset.refl _) hbound hbound'
            exact ⟨[bound', []], tail', .bound hsome hstage hbound, htail', rfl⟩
        | plain hplain => exact ⟨[], tail, .plain hplain, htail, rfl⟩
      have hwoven : Woven { w with gates } headed (line :: rest) _ := .cons himage hbelow' (ih htail')
      rw [habove', List.nil_append] at hwoven
      exact hwoven

/-! ### The lookup entry -/

theorem guarded_eq_wiringLine_iff {selection : Text} {gates : List LayerGate}
    (hselection : WrittenIn argumentChar selection) {content guarded : Text}
    (h : GuardedBy selection gates content guarded) : guarded = wiringLine ↔ content = wiringLine :=
  guarded_eq_iff hselection h (by decide : '\x7d' ∈ wiringLine.head?) (by decide) (by decide)

/-- Entries above wiring lines are written into a text woven without them. -/
theorem Woven.entered {w : Weave} (hselection : WrittenIn argumentChar w.selection) (hentry : w.entry? = none)
    (entry : Text) (hstatement : ∀ statement, w.statement? = some statement → statement ≠ wiringLine)
    {headed : Bool} {contents written : List Text}
    (himages : ∀ line ∈ contents, w.image line = wiringLine ↔ line = wiringLine)
    (h : Woven w headed contents written) :
    Woven { w with entry? := some entry } headed contents
      ((written.map (lookupBlock entry)).flatMap Block.lines) := by
  induction h with
  | nil => exact .nil
  | @cons headed line guarded below rest written himage hbelow _ ih =>
      rw [List.forall_mem_cons] at himages
      have hnone : w.above line = [] := by simp [Weave.above, hentry]
      have hother : ∀ content, content ≠ wiringLine → (lookupBlock entry content).lines = [content] := by
        intro content hcontent
        rw [lookupBlock, if_neg hcontent, Block.lines_single]
      have hline : (lookupBlock entry guarded).lines
          = Weave.above { w with entry? := some entry } line ++ [guarded] := by
        have hwiring := (guarded_eq_wiringLine_iff hselection himage).trans himages.1
        by_cases hguarded : guarded = wiringLine
        · rw [lookupBlock, if_pos hguarded, hguarded, Weave.above]
          simp [hwiring.1 hguarded, Block.lines]
        · have hnot : line ≠ wiringLine := fun heq => hguarded (hwiring.2 heq)
          rw [hother guarded hguarded, Weave.above]
          simp [hnot]
      have hbelow' : (below.map (lookupBlock entry)).flatMap Block.lines = below := by
        cases hbelow with
        | bound hsome hstage hbound =>
            have hbound := fun heq => hstatement _ hsome ((guarded_eq_wiringLine_iff hselection hbound).1 heq)
            simp [hother _ hbound, hother [] (by decide)]
        | plain hplain => rfl
      have hbelow : Weave.Below { w with entry? := some entry } headed line below := by
        cases hbelow with
        | bound hsome hstage hbound => exact .bound hsome hstage hbound
        | plain hplain => exact .plain hplain
      rw [hnone, List.nil_append, List.map_cons, List.flatMap_cons, List.map_append, List.flatMap_append, hline,
        hbelow', List.append_assoc, List.singleton_append]
      exact .cons himage hbelow (ih himages.2)

/-! ### What publishing weaves -/

/-- What becomes of a line: its configured fills are swapped, and its bitmaps remapped if the options ask for
    it. -/
def lineImage (palette : Palette) (options : Options) (line : Text) : Text :=
  let filled := swept (fillSwapsOf options.variant palette) line
  if options.remapAssetPath then remapped options.variant filled else filled

/-- The statement that a variant writes below the stage constructors of a source: none if there it is already. -/
def statementFor? (palette : Palette) (options : Options) (contents : List Text) : Option Text :=
  match options.variant with
  | .aliased =>
    if contents.any (Text.occursIn (aliasStatement palette.paletteGlobal)) then none
    else some (aliasStatement palette.paletteGlobal)
  | .indexed => none

/-- The entry that is written above the wiring lines of a source: none if an image holds it already. -/
def entryFor? (palette : Palette) (options : Options) (stem : Text) (contents : List Text) : Option Text :=
  if contents.any fun line => Text.occursIn (lookupEntry stem) (lineImage palette options line) then none
  else some (lookupEntry stem)

/-- What a pipeline makes of a source with the given lines. -/
def weaveOf (palette : Palette) (options : Options) (stem : Text) (contents : List Text) : Weave where
  selection := selectionOf options.variant palette
  gates := gatesOf palette.figures.toNat
  image := lineImage palette options
  statement? := statementFor? palette options contents
  entry? := entryFor? palette options stem contents

/-- The bound lines are woven of the source and the statement. -/
theorem woven_boundLines (palette : Palette) (options : Options) (contents : List Text) :
    Woven ⟨selectionOf options.variant palette, [], id, statementFor? palette options contents, none⟩ false contents
      (boundLines options.variant palette contents) := by
  unfold statementFor? boundLines
  cases options.variant with
  | indexed => exact woven_self _ false contents
  | aliased =>
      simp only [Rule.lines, Rule.blocks, blocksUnless]
      split
      · rw [Block.flatMap_lines_single]
        exact woven_self _ false contents
      · exact woven_aliasBlocks _ _ false contents

/-- The statement, where it is written, is a line without quotes. -/
theorem statementFor?_eq_some {palette : Palette} (hvalid : palette.Valid) {options : Options}
    {contents : List Text} {statement : Text} (h : statementFor? palette options contents = some statement) :
    Unbroken statement ∧ '"' ∉ statement ∧ statement ≠ wiringLine := by
  have hstatement : statement = aliasStatement palette.paletteGlobal := by
    unfold statementFor? at h
    split at h
    · split at h
      · contradiction
      · exact (Option.some.inj h).symm
    · contradiction
  subst hstatement
  refine ⟨unbroken_aliasStatement hvalid.global,
    not_mem_aliasStatement hvalid.global (by decide) (by decide) (by decide), fun heq => ?_⟩
  have hhead : (aliasStatement palette.paletteGlobal).head? = some 't' := rfl
  rw [heq] at hhead
  exact absurd hhead (by decide)

/-- Filling, guarding and serving the bound lines weaves their images. -/
theorem woven_draftLines {palette : Palette} (hvalid : palette.Valid) (options : Options) {contents : List Text}
    (hcontents : ∀ content ∈ contents, Unbroken content) :
    Woven ⟨selectionOf options.variant palette, gatesOf palette.figures.toNat, lineImage palette options,
      statementFor? palette options contents, none⟩ false contents (draftLines palette options contents) := by
  have hfills := fillSwaps_of_valid hvalid options.variant
  have hselection := writtenIn_selectionOf hvalid options.variant
  have hstatement := fun statement => @statementFor?_eq_some palette hvalid options contents statement
  have hbound := woven_boundLines palette options contents
  have hfilled := hbound.map (f := swept (fillSwapsOf options.variant palette)) rfl
    (fun content guarded _ hguarded => by
      obtain ⟨chain, hchain, -, rfl⟩ := hguarded
      cases hchain with
      | nil => exact guardedBy_self _ _ _
      | cons hgate => simp at hgate)
    (hfills.swept_of_quote_not_mem (by simp))
    (fun statement hsome => ⟨(hstatement statement hsome).1,
      hfills.swept_of_quote_not_mem (hstatement statement hsome).2.1⟩) hcontents
  have hgated := hfilled.gated rfl (List.nil_subset _)
    (forall₂_gatedLines (selectionOf options.variant palette) (gatesOf palette.figures.toNat) _)
  unfold draftLines servedLines lineImage
  cases hremap : options.remapAssetPath with
  | false => exact hgated
  | true =>
      refine hgated.map (f := remapped options.variant) rfl (fun content guarded hcontent hguarded => ?_)
        (remapped_of_quote_not_mem options.variant (by simp))
        (fun statement hsome => ⟨(hstatement statement hsome).1,
          remapped_of_quote_not_mem options.variant (hstatement statement hsome).2.1⟩)
        (fun line hmem => unbroken_swept hfills (hcontents line hmem))
      have hguarded : GuardedBy (selectionOf options.variant palette) (gatesOf palette.figures.toNat) content
          guarded := hguarded
      exact hguarded.remapped hselection options.variant hcontent

/-- A needle with a quote is found in a text woven without entries if it is found in an image. -/
theorem Woven.any_occursIn {w : Weave} (hselection : WrittenIn argumentChar w.selection) (hentry : w.entry? = none)
    (hstatement : ∀ statement, w.statement? = some statement → '"' ∉ statement) {early late : Text}
    (hearly : ')' ∉ early) {headed : Bool} {contents written : List Text} (h : Woven w headed contents written) :
    written.any (Text.occursIn (early ++ '"' :: late))
      = contents.any fun line => Text.occursIn (early ++ '"' :: late) (w.image line) := by
  induction h with
  | nil => rfl
  | @cons headed line guarded below rest written himage hbelow _ ih =>
      have habove : w.above line = [] := by simp [Weave.above, hentry]
      have hguarded : Text.occursIn (early ++ '"' :: late) guarded
          = Text.occursIn (early ++ '"' :: late) (w.image line) := by
        rw [Bool.eq_iff_iff, Text.occursIn_iff, Text.occursIn_iff, infix_guarded_iff hselection himage hearly]
      have hplain : ∀ t : Text, '"' ∉ t → Text.occursIn (early ++ '"' :: late) t = false := by
        intro t ht
        rw [Bool.eq_false_iff, ne_eq, Text.occursIn_iff]
        exact fun hoccurs => ht (hoccurs.subset (by simp))
      have hbelow : below.any (Text.occursIn (early ++ '"' :: late)) = false := by
        cases hbelow with
        | bound hsome hstage hbound =>
            have hbound : early ++ '"' :: late <:+: _ ↔ _ := infix_guarded_iff hselection hbound hearly
            have hnone := hplain _ (hstatement _ hsome)
            rw [Bool.eq_false_iff, ne_eq, Text.occursIn_iff, ← hbound, ← Text.occursIn_iff, ← ne_eq,
              ← Bool.eq_false_iff] at hnone
            simp [hnone, hplain [] (by simp)]
        | plain => rfl
      rw [habove, List.nil_append, List.any_cons, List.any_append, hguarded, hbelow, ih, List.any_cons,
        Bool.false_or]

/-- The entry of a stem is found in a text woven without entries if it is found in an image. -/
theorem Woven.any_lookupEntry {w : Weave} (hselection : WrittenIn argumentChar w.selection)
    (hentry : w.entry? = none) (hstatement : ∀ statement, w.statement? = some statement → '"' ∉ statement)
    (stem : Text) {headed : Bool} {contents written : List Text} (h : Woven w headed contents written) :
    written.any (Text.occursIn (lookupEntry stem))
      = contents.any fun line => Text.occursIn (lookupEntry stem) (w.image line) := by
  rw [lookupEntry_split]
  exact h.any_occursIn hselection hentry hstatement not_mem_entryOpening

/-- What neither fills nor bitmaps change about a line is the same about its image. -/
theorem view_lineImage {β : Type} (view : Text → β) {palette : Palette} (hvalid : palette.Valid) (options : Options)
    (hswept : ∀ t, view (swept (fillSwapsOf options.variant palette) t) = view t)
    (hremapped : ∀ t, Unbroken t → view (remapped options.variant t) = view t) {line : Text}
    (hline : Unbroken line) : view (lineImage palette options line) = view line := by
  have hfilled := unbroken_swept (fillSwaps_of_valid hvalid options.variant) hline
  unfold lineImage
  dsimp only
  split
  · exact (hremapped _ hfilled).trans (hswept line)
  · exact hswept line

/-- The images of a fixed line without fills and quotes are that line. -/
theorem lineImage_eq_iff {palette : Palette} (hvalid : palette.Valid) (options : Options) {fixed : Text}
    (hfill : 'f' ∉ fixed) (hquote : '"' ∉ fixed) {line : Text} (hline : Unbroken line) :
    lineImage palette options line = fixed ↔ line = fixed := by
  have hfills := fillSwaps_of_valid hvalid options.variant
  refine iff_of_eq (view_lineImage (fun t => t = fixed) hvalid options (fun t => ?_) (fun t ht => ?_) hline)
  · exact propext (hfills.swept_eq_iff hfill t)
  · exact propext (remapped_eq_iff hquote options.variant ht)

/-- The rules of a pipeline weave the lines of a source. -/
theorem woven_lines {palette : Palette} (hvalid : palette.Valid) (options : Options) (stem : Text)
    {contents : List Text} (hcontents : ∀ content ∈ contents, Unbroken content) :
    Woven (weaveOf palette options stem contents) false contents
      (Rule.fileIdLookup.lines stem (draftLines palette options contents)) := by
  have hselection := writtenIn_selectionOf hvalid options.variant
  have hdraft := woven_draftLines hvalid options hcontents
  have hstatement := fun statement => @statementFor?_eq_some palette hvalid options contents statement
  have hany := hdraft.any_lookupEntry hselection rfl (fun statement hsome => (hstatement statement hsome).2.1) stem
  have hwiring : 'f' ∉ wiringLine ∧ '"' ∉ wiringLine := by decide
  simp only [Rule.lines, Rule.blocks, blocksUnless, hany]
  unfold weaveOf entryFor?
  split
  · rw [Block.flatMap_lines_single]
    exact hdraft
  · exact hdraft.entered hselection rfl _ (fun statement hsome => (hstatement statement hsome).2.2)
      fun line hmem => lineImage_eq_iff hvalid options hwiring.1 hwiring.2 (hcontents line hmem)

namespace Pipeline

theorem mark_text (ls : Lines) (ending : LineEnding) : mark ending ls.text = (ls.snoc ending marker).text := by
  rw [mark, Lines.text_snoc, List.append_assoc]

/-- Published lines are the woven lines of the source and the marker; nothing is lost, doubled or moved. -/
theorem woven_of_publishDocument {palette : Palette} {options : Options} {pipeline : Pipeline}
    (hcreate : Pipeline.create palette options = .ok pipeline) {document source : Text}
    (hsource : pipeline.source? document = some source) (htidy : Tidy source = true) {stem : Text}
    {published : PublishedDocument}
    (h : (pipeline.publishDocument document stem).outcome = .ok published) :
    ∃ written, (Lines.ofText published.text).contents = written ++ [marker]
      ∧ Woven (weaveOf palette options stem (Lines.ofText source).contents) false (Lines.ofText source).contents
        written := by
  have hls := Lines.unbroken_ofText htidy
  have hrewritten := Lines.unbroken_rewritten (sound_of_create hcreate) hls (.ofDocument stem source)
  have htext := text_of_publishDocument hcreate hsource htidy h
  refine ⟨_, ?_, woven_lines (eq_of_create hcreate).1 options stem hls⟩
  rw [htext, mark_text, Lines.ofText_text ((Lines.unbroken_snoc _).2 ⟨hrewritten, unbroken_marker⟩),
    Lines.contents_snoc, contents_of_create hcreate]
  rfl

/-- A stage with a tagged layer below a fill, and its wiring line. -/
def stageExport : Text :=
  "// stage content:\n(function(mode,startPosition,loop) \x7b\ng.f(\"#666600\").s();\n".toList
    ++ "// figure1hair2\nthis.addTween();\n".toList ++ wiringLine

/-- The stage is woven with a statement and an entry. -/
theorem woven_of_publishDocument_stageExport :
    ∃ published written,
      (publishDocument ⟨.standard, Rule.listFor .standard .aliased true⟩ stageExport "walk".toList).outcome
          = .ok published
        ∧ (Lines.ofText published.text).contents = written ++ [marker]
        ∧ Woven (weaveOf .standard .standard "walk".toList (Lines.ofText stageExport).contents) false
          (Lines.ofText stageExport).contents written := by
  have hcreate : Pipeline.create .standard .standard
      = .ok ⟨.standard, Rule.listFor .standard .aliased true⟩ := by decide +kernel
  have hsource : source? ⟨.standard, Rule.listFor .standard .aliased true⟩ stageExport = some stageExport := by
    decide +kernel
  have htidy : Tidy stageExport = true := by decide +kernel
  obtain ⟨published, hpublished⟩ := exists_publishDocument (by decide) hsource "walk".toList
  obtain ⟨written, hwritten, hwoven⟩ := woven_of_publishDocument hcreate hsource htidy hpublished
  exact ⟨published, written, hpublished, hwritten, hwoven⟩

end Pipeline

end CanvasExport
