/-
Module: CanvasExport.Proofs.Palette.Layers
Layer: Proofs
Purpose: What guarding layers by a palette's selection comes to, for either variant. A second run counts the same layers
  and leaves a text as it is exactly if no two gates share a line; and the line of a tag that no other tag of its
  gate stands in the way of starts with the tag's own guard or with guards in front of it. One gate alone comes to the
  end of any text and has nothing to add when it reads what it has written.
Main exports: apply_layerVisibility, gatePass_settles, layerVisibility_again, layerVisibility_line
-/
import CanvasExport.Proofs.Publish.Run
import CanvasExport.Proofs.Rule.Coverage
import CanvasExport.Proofs.Rule.Cursor
import CanvasExport.Proofs.Rule.Regating
import CanvasExport.Proofs.Rule.Rereading

namespace CanvasExport

open Rule

/-! ### The pass of one gate -/

/-- The loop of a gate ends in any text. Each iteration ends behind the place at which it started and within the text,
    no slice fails, and no more layers are guarded or passed than the text has tags of the gate, which are no more than
    the places where the fixed part of a tag occurs. The same pass over what has been written writes the same text and
    counts the same. -/
theorem gatePass_settles {palette : Palette} (h : palette.problems = []) (variant : Variant) (gate : LayerGate)
    (t : Text) :
    let selection := selectionOf variant palette
    let once := Rewrite.ofScript ((gate.recognizer selection).script t)
    let again := Rewrite.ofScript ((gate.recognizer selection).script once.text)
    (∃ cursors last, gate.Runs selection t .start cursors last
        ∧ (Cursor.start :: cursors).IsChain (fun cursor next => cursor.position < next.position)
        ∧ (∀ cursor ∈ cursors, cursor.position ≤ t.byteLength)
        ∧ once = ⟨last.written, last.counted⟩
        ∧ last.counted + last.passed = cursors.length
        ∧ last.counted + last.passed ≤ (gate.suffixes t).length
        ∧ (gate.suffixes t).length ≤ Text.occurrences gate.tag t)
      ∧ again = once := by
  intro selection once again
  have hselection : WrittenIn argumentChar selection :=
    writtenIn_selectionOf (Palette.valid_of_problems h) variant
  obtain ⟨cursors, last, hruns, hchain, hbounds, hpass, hlength, htags⟩ :=
    LayerGate.exists_runs (gate.between_start selection t)
  have hiterations : last.counted + last.passed = cursors.length := by simpa [Cursor.start] using hlength
  have hoccurrences := gate.length_suffixes_le_occurrences t
  obtain ⟨hresult, hswaps⟩ := gate.script_result_script hselection t
  have hagain : again = once := by
    calc
      again = ⟨once.text, once.replacements⟩ := congrArg₂ Rewrite.mk hresult hswaps
      _ = once := rfl
  exact ⟨⟨cursors, last, hruns, hchain, hbounds, hpass, hiterations, htags, hoccurrences⟩, hagain⟩

/-- A palette whose table has a name that holds the registration word and the word for accessories. -/
def wordyPalette : Palette :=
  { Palette.standard with paletteTable := "addTween_accessory".toList }

/-- An accessory, and a layer whose tag and registration line are parts of one line: only carriage returns separate
    them. -/
def returnedLayer : Text :=
  "// figure0avatar Accessory é\n// figure0avatar\rhat\rb.addTween(x);".toList

/-- The tag's suffix ends where the last registration line starts, and it does so again in front of the guard. -/
theorem gatePass_settles_returnedLayer :
    let selection := selectionOf .indexed wordyPalette
    let gate : LayerGate := ⟨0, .avatar⟩
    let once := Rewrite.ofScript ((gate.recognizer selection).script returnedLayer)
    let again := Rewrite.ofScript ((gate.recognizer selection).script once.text)
    wordyPalette.problems = []
      ∧ once = ⟨("// figure0avatar Accessory é\n// figure0avatar\rhat\r".toList
        ++ "if (addTween_accessory.selected.figure == 0)b.addTween(x);".toList), 1⟩
      ∧ (∃ cursors last, gate.Runs selection returnedLayer .start cursors last
        ∧ (Cursor.start :: cursors).IsChain (fun cursor next => cursor.position < next.position)
        ∧ (∀ cursor ∈ cursors, cursor.position ≤ returnedLayer.byteLength)
        ∧ once = ⟨last.written, last.counted⟩
        ∧ last.counted + last.passed = cursors.length
        ∧ last.counted + last.passed ≤ (gate.suffixes returnedLayer).length
        ∧ (gate.suffixes returnedLayer).length ≤ Text.occurrences gate.tag returnedLayer)
      ∧ again = once :=
  ⟨by decide, by decide +kernel, gatePass_settles (by decide) .indexed ⟨0, .avatar⟩ returnedLayer⟩

/-! ### The rule over lines -/

section Lines

variable {selection : Text} (hselection : WrittenIn argumentChar selection) (figures : Nat) (context : DocumentContext)
  {ls : Lines} (hls : ls.Unbroken)

include hselection hls

/-- The rule writes the lines that the gates write, in the places of those that it read. -/
theorem apply_layerVisibility : ∃ guarded : Lines, guarded.Unbroken
    ∧ guarded.contents = gatedLines selection (gatesOf figures) ls.contents
    ∧ (Rule.layerVisibility figures selection).apply context ls.text
      = ⟨guarded.text, (Rule.layerVisibility figures selection).count context.stem ls.contents⟩
    ∧ (guarded = ls ↔ gatedLines selection (gatesOf figures) ls.contents = ls.contents) := by
  have hsound : (Rule.layerVisibility figures selection).Sound := hselection
  have hlength := (Rule.layerVisibility figures selection).length_blocks context.stem ls.contents
  have hcontents : (ls.write context.ending ((Rule.layerVisibility figures selection).blocks context.stem
      ls.contents)).contents = gatedLines selection (gatesOf figures) ls.contents := by
    rw [Lines.contents_write hlength, blocks, Block.flatMap_lines_single]
  refine ⟨_, Lines.unbroken_write_blocks hsound hls context.ending context.stem, hcontents,
    Rule.apply_lines hsound hls context, ⟨fun hsame => ?_, fun hsame => ?_⟩⟩
  · rw [← hcontents, hsame]
  · rw [blocks, hsame, Lines.write_singles]

end Lines

/-! ### A second run -/

/-- Guarding the layers of a guarded text counts the same layers. It leaves the text as it is exactly if no two
    gates find the line of a layer at the same place: the guard of a gate is seen only in front of all others. -/
theorem layerVisibility_again {palette : Palette} (h : palette.problems = []) (variant : Variant) (figures : Nat)
    (context : DocumentContext) {t : Text} (ht : Tidy t = true) :
    let selection := selectionOf variant palette
    let rule := Rule.layerVisibility figures selection
    let once := rule.apply context t
    let again := rule.apply context once.text
    again.replacements = once.replacements
      ∧ (again.text = once.text ↔ ∀ g ∈ gatesOf figures, ∀ g' ∈ gatesOf figures, g ≠ g' →
        ∀ place ∈ g.gatedPlaces selection t, place ∉ g'.gatedPlaces selection t) := by
  intro selection rule once again
  have hselection := writtenIn_selectionOf (Palette.valid_of_problems h) variant
  have hls := Lines.unbroken_ofText ht
  obtain ⟨guarded, hguarded, hcontents, happly, -⟩ := apply_layerVisibility hselection figures context hls
  obtain ⟨twice, htwice, -, hreapply, hsame⟩ := apply_layerVisibility hselection figures context hguarded
  rw [Lines.text_ofText] at happly
  have honce : once = ⟨guarded.text, rule.count context.stem (Lines.ofText t).contents⟩ := happly
  have hagain : again = ⟨twice.text, rule.count context.stem guarded.contents⟩ := by
    rw [← hreapply]
    exact congrArg (fun r : Rewrite => rule.apply context r.text) honce
  constructor
  · rw [hagain, honce, hcontents]
    exact passCount_gatedLines hselection (gatesOf figures) (Lines.ofText t).contents
  · have htext : again.text = once.text ↔ twice = guarded := by
      rw [hagain, honce]
      refine ⟨fun heq => ?_, fun heq => by rw [heq]⟩
      rw [← Lines.ofText_text htwice, ← Lines.ofText_text hguarded]
      exact congrArg Lines.ofText heq
    rw [htext, hsame, hcontents, gatedLines_gatedLines_iff hselection]
    have hplaces := fun g g' : LayerGate => LayerGate.apart_iff_gatedPlaces g g' (selectionOf variant palette) hls
    rw [Lines.text_ofText] at hplaces
    simp only [hplaces]
    rfl

/-- Two layers of a figure, the tag of one on the line of the other. -/
def separateLayers : Text :=
  "// figure0avatar\r\na.addTween(x); // figure0hair2\r\nb.addTween(y);".toList

/-- Their lines are guarded once and stay as they are. -/
theorem layerVisibility_again_separateLayers :
    let selection := selectionOf .indexed .standard
    let rule := Rule.layerVisibility 1 selection
    let once := rule.apply ⟨"walk".toList, .crlf⟩ separateLayers
    let again := rule.apply ⟨"walk".toList, .crlf⟩ once.text
    Palette.standard.problems = [] ∧ Tidy separateLayers = true ∧ once.replacements = 2
      ∧ again.replacements = once.replacements
      ∧ (again.text = once.text ↔ ∀ g ∈ gatesOf 1, ∀ g' ∈ gatesOf 1, g ≠ g' →
        ∀ place ∈ g.gatedPlaces selection separateLayers, place ∉ g'.gatedPlaces selection separateLayers) :=
  ⟨by decide, by decide +kernel, by decide +kernel,
    layerVisibility_again (by decide) .indexed 1 ⟨"walk".toList, .crlf⟩ (by decide +kernel)⟩

/-- An avatar and hair that are put on the stage by one line. -/
def sharedLayer : Text :=
  "// figure0avatar\n// figure0hair1\na.addTween(x);".toList

/-- The guard of the avatar stands behind that of the hair, so both are put in front of the line again. -/
theorem not_layerVisibility_again :
    let rule := Rule.layerVisibility 1 (selectionOf .aliased .standard)
    let guards :=
      "if (this.assetPalette.figure == 0 && this.assetPalette.hair == 1)if (this.assetPalette.figure == 0)".toList
    let once := "// figure0avatar\n// figure0hair1\n".toList ++ guards ++ "a.addTween(x);".toList
    let again := "// figure0avatar\n// figure0hair1\n".toList ++ guards ++ guards ++ "a.addTween(x);".toList
    Palette.standard.problems = [] ∧ Tidy sharedLayer = true
      ∧ rule.apply ⟨"walk".toList, .lf⟩ sharedLayer = ⟨once, 2⟩
      ∧ rule.apply ⟨"walk".toList, .lf⟩ once = ⟨again, 2⟩ ∧ again ≠ once := by
  decide +kernel

/-! ### Every layer's own guard -/

/-- The nearest registration line below a tag starts, in the guarded text, with guards of the gates up to the tag's
    own, and holds what it held behind them; provided that no other tag of the gate stands in the tag's way. -/
theorem layerVisibility_line {palette : Palette} (h : palette.problems = []) (variant : Variant) (figures : Nat)
    (context : DocumentContext) {t : Text} (ht : Tidy t = true) {gate : LayerGate} (hgate : gate ∈ gatesOf figures)
    {earlier between later : List Text} {above here line suffix : Text}
    (hlines : (Lines.ofText t).contents = earlier ++ (above ++ here) :: (between ++ line :: later))
    (hsuffix : gate.suffix? here = some suffix) (hasks : gate.Asks suffix)
    (hbetween : ∀ content ∈ between, ¬ registration <:+: content) (hline : registration <:+: line)
    (hunhidden : gate.Unhidden earlier above here) :
    let selection := selectionOf variant palette
    let guarded := ((Rule.layerVisibility figures selection).apply context t).text
    ∃ chain rest, GuardChain selection (gatesOf figures) (chain ++ gate.guard selection suffix)
      ∧ line <:+ chain ++ gate.guard selection suffix ++ rest
      ∧ (Lines.ofText guarded).contents[earlier.length + 1 + between.length]?
        = some (chain ++ gate.guard selection suffix ++ rest) := by
  intro selection guarded
  have hselection := writtenIn_selectionOf (Palette.valid_of_problems h) variant
  have hls := Lines.unbroken_ofText ht
  have hunbroken : ∀ content ∈ earlier ++ (above ++ here) :: (between ++ line :: later), Unbroken content :=
    hlines ▸ hls
  obtain ⟨written, hwritten, hcontents, happly, -⟩ := apply_layerVisibility hselection figures context hls
  rw [Lines.text_ofText] at happly
  have hguarded : (Lines.ofText guarded).contents
      = gatedLines selection (gatesOf figures) (Lines.ofText t).contents := by
    rw [← hcontents, ← Lines.ofText_text hwritten]
    exact congrArg (fun r : Rewrite => (Lines.ofText r.text).contents) happly
  have hsplit : (Lines.ofText t).contents = (earlier ++ [above ++ here] ++ between) ++ line :: later := by
    simp [hlines]
  have hplace : (earlier ++ [above ++ here] ++ between).length = earlier.length + 1 + between.length := by
    simp only [List.length_append, List.length_cons, List.length_nil]
  have htag := gate.waitingAt_of_unhidden selection (hunbroken _ (by simp))
    (fun content hmem => hunbroken content (by simp [hmem])) hsuffix hasks hunhidden
  have hsilent : ∀ content ∈ between, throughRegistration? content = none := fun content hmem =>
    (throughRegistration?_eq_none_iff (hunbroken content (by simp [hmem]))).2 (hbetween content hmem)
  have hwaiting := gate.waitingAt_append_of_silent selection htag hsilent
  have hregistered := (isSome_throughRegistration?_iff (hunbroken line (by simp))).2 hline
  rw [hguarded, ← hplace]
  refine exists_chain_of_waitingAt hselection hgate ?_ hregistered ?_
  · rw [hsplit, List.getElem?_append_right (Nat.le_refl _), Nat.sub_self, List.getElem?_cons_zero]
  · rw [hsplit, List.take_left]
    exact hwaiting

/-- A tag on the registration line of another one, behind that line's last registration word. -/
def servedTag : Text :=
  "// figure0avatar\r\n// figure0hair1\r\na.addTween(x); // figure0hair2\r\n\r\nb.addTween(y);".toList

/-- The lines above the tag. -/
def linesAboveTag : List Text :=
  ["// figure0avatar".toList, "// figure0hair1".toList]

/-- Nothing stands in its way. -/
theorem layerVisibility_line_servedTag :
    let selection := selectionOf .aliased .standard
    let guarded := ((Rule.layerVisibility 1 selection).apply ⟨"walk".toList, .crlf⟩ servedTag).text
    Palette.standard.problems = [] ∧ Tidy servedTag = true ∧ ⟨0, .hair⟩ ∈ gatesOf 1
      ∧ (Lines.ofText servedTag).contents = linesAboveTag
        ++ ("a.addTween(x); ".toList ++ "// figure0hair2".toList) :: ([[]] ++ "b.addTween(y);".toList :: [])
      ∧ LayerGate.suffix? ⟨0, .hair⟩ "// figure0hair2".toList = some ['2'] ∧ LayerGate.Asks ⟨0, .hair⟩ ['2']
      ∧ (∀ content ∈ [[]], ¬ registration <:+: content) ∧ registration <:+: "b.addTween(y);".toList
      ∧ LayerGate.Unhidden ⟨0, .hair⟩ linesAboveTag "a.addTween(x); ".toList "// figure0hair2".toList
      ∧ ∃ chain rest, GuardChain selection (gatesOf 1) (chain ++ LayerGate.guard ⟨0, .hair⟩ selection ['2'])
        ∧ "b.addTween(y);".toList <:+ chain ++ LayerGate.guard ⟨0, .hair⟩ selection ['2'] ++ rest
        ∧ (Lines.ofText guarded).contents[linesAboveTag.length + 1 + 1]?
          = some (chain ++ LayerGate.guard ⟨0, .hair⟩ selection ['2'] ++ rest) := by
  have htidy : Tidy servedTag = true := by decide +kernel
  have hlines : (Lines.ofText servedTag).contents = linesAboveTag
      ++ ("a.addTween(x); ".toList ++ "// figure0hair2".toList) :: ([[]] ++ "b.addTween(y);".toList :: []) := by
    decide +kernel
  have hsuffix : LayerGate.suffix? ⟨0, .hair⟩ "// figure0hair2".toList = some ['2'] := by decide +kernel
  have hasks : LayerGate.Asks ⟨0, .hair⟩ ['2'] := by decide +kernel
  have hbetween : ∀ content ∈ [[]], ¬ registration <:+: content := by decide +kernel
  have hline : registration <:+: "b.addTween(y);".toList := by decide +kernel
  have hunhidden : LayerGate.Unhidden ⟨0, .hair⟩ linesAboveTag "a.addTween(x); ".toList "// figure0hair2".toList :=
    ⟨by decide +kernel, fun _ _ _ _ _ => .inr (by decide +kernel)⟩
  exact ⟨by decide, htidy, by decide, hlines, hsuffix, hasks, hbetween, hline, hunhidden,
    layerVisibility_line (by decide) .aliased 1 ⟨"walk".toList, .crlf⟩ htidy (by decide) hlines hsuffix hasks
      hbetween hline hunhidden⟩

/-- A tag on the registration line of another one, in front of that line's last registration word. -/
def passedTag : Text :=
  "// figure0hair1
a.addTween(x); // figure0hair2 b.addTween(y);
c.addTween(z);".toList

/-- Its gate has passed the tag when it looks for tags again, and the line of the layer gets no guard. -/
theorem not_layerVisibility_line :
    let selection := selectionOf .aliased .standard
    let guarded := ((Rule.layerVisibility 1 selection).apply ⟨"walk".toList, .lf⟩ passedTag).text
    Palette.standard.problems = [] ∧ Tidy passedTag = true ∧ ⟨0, .hair⟩ ∈ gatesOf 1
      ∧ (Lines.ofText passedTag).contents = ["// figure0hair1".toList,
        "a.addTween(x); ".toList ++ "// figure0hair2 b.addTween(y);".toList, "c.addTween(z);".toList]
      ∧ LayerGate.suffix? ⟨0, .hair⟩ "// figure0hair2 b.addTween(y);".toList = some ['2']
      ∧ LayerGate.Asks ⟨0, .hair⟩ ['2'] ∧ registration <:+: "c.addTween(z);".toList
      ∧ (Lines.ofText guarded).contents[2]? = some "c.addTween(z);".toList
      ∧ ¬ ∃ chain rest, (Lines.ofText guarded).contents[2]?
        = some (chain ++ LayerGate.guard ⟨0, .hair⟩ selection ['2'] ++ rest) := by
  intro selection guarded
  have hbare : (Lines.ofText guarded).contents[2]? = some "c.addTween(z);".toList := by decide +kernel
  refine ⟨by decide, by decide +kernel, by decide, by decide +kernel, by decide +kernel, by decide +kernel,
    by decide +kernel, hbare, ?_⟩
  rintro ⟨chain, rest, hline⟩
  rw [hbare, Option.some.injEq] at hline
  have hletter : 'i' ∉ "c.addTween(z);".toList := by decide
  have hguard : 'i' ∈ LayerGate.guard ⟨0, .hair⟩ selection ['2'] := by decide +kernel
  exact hletter (hline ▸ List.mem_append_left _ (List.mem_append_right _ hguard))

end CanvasExport
