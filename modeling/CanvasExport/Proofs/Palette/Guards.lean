/-
Module: CanvasExport.Proofs.Palette.Guards
Layer: Proofs
Purpose: Where the layer rule puts guards, and what the guards of hair and eyes compare with. Of any text, whatever
  its line breaks, the rule keeps every character and puts chains of guards in front of lines only; a guard of hair
  or eyes holds the digits of a tag as they stand, so it names the tag's number where they have no needless zero.
Main exports: mem_gatesOf, nodup_gatesOf, layerVisibility_insertions, scriptValue, LayerGate.ComparesDigits,
  layerVisibility_digits
-/
import CanvasExport.Proofs.Publish.Run
import CanvasExport.Proofs.Rule.Guarding
import CanvasExport.Proofs.Text.Numeral
import Mathlib.Data.List.Nodup

namespace CanvasExport

namespace Rule

/-! ### The gates of a rule -/

theorem mem_gatesOf {gate : LayerGate} {figures : Nat} : gate ∈ gatesOf figures ↔ gate.figure < figures := by
  obtain ⟨figure, kind⟩ := gate
  rw [gatesOf, List.mem_flatMap]
  constructor
  · rintro ⟨other, hother, hmem⟩
    have hfigure : figure = other := by
      simp only [List.mem_cons, LayerGate.mk.injEq, List.not_mem_nil, or_false] at hmem
      exact hmem.elim (·.1) (·.elim (·.1) (·.1))
    exact hfigure ▸ List.mem_range.1 hother
  · intro hlt
    refine ⟨figure, List.mem_range.2 hlt, ?_⟩
    cases kind <;> simp

theorem nodup_gatesOf (figures : Nat) : (gatesOf figures).Nodup := by
  rw [gatesOf, List.nodup_flatMap]
  refine ⟨fun figure _ => by simp, List.nodup_range.imp fun {first second} hne gate hfirst hsecond => hne ?_⟩
  have hfigure : ∀ {figure : Nat}, gate ∈ [⟨figure, .avatar⟩, ⟨figure, .hair⟩, ⟨figure, .eyes⟩] →
      gate.figure = figure := by
    intro figure hmem
    simp only [List.mem_cons, List.not_mem_nil, or_false] at hmem
    rcases hmem with rfl | rfl | rfl <;> rfl
  exact (hfigure hfirst).symm.trans (hfigure hsecond)

end Rule

open Rule

/-! ### Nothing but guards in front of lines -/

/-- Guarding layers by a palette's selection puts guards in front of lines and changes nothing else, whatever the line
    breaks. In front of a line the guards are of different gates and stand in the reverse order of these. Each guard
    that is put in is counted, and what is counted is a layer that has its guard when its gate is done. A text of which
    nothing is counted stays as it is; it has no layer to guard. -/
theorem layerVisibility_insertions {palette : Palette} (h : palette.problems = []) (variant : Variant) (figures : Nat)
    (context : DocumentContext) (t : Text) :
    let selection := selectionOf variant palette
    let rule := Rule.layerVisibility figures selection
    let once := rule.apply context t
    (∃ chains : Nat → Guards,
      let script := Script.inserting (fun place => (chains place).text) t
      script.source = t ∧ script.result = once.text
        ∧ (∀ place, chains place ≠ [] → place < t.length ∧ StartsLineAt t place)
        ∧ (∀ place, ((chains place).map Prod.fst).Sublist (gatesOf figures).reverse
          ∧ ((chains place).map Prod.fst).Nodup
          ∧ ∀ guard ∈ chains place, guard.1.figure < figures ∧ guard.1.IsGuard selection guard.2)
        ∧ ((List.range t.length).flatMap chains).length ≤ once.replacements)
      ∧ (once.replacements = 0 → once.text = t ∧ ∀ gate ∈ gatesOf figures, gate.Idle t)
      ∧ Script.Chain t (rule.scripts context t) once.text
      ∧ List.Forall₂ (fun gate script => gate.GuardsCounted selection script) (gatesOf figures)
        (rule.scripts context t) := by
  intro selection rule once
  have hselection := writtenIn_selectionOf (Palette.valid_of_problems h) variant
  have hnone : Guarding selection [] none t t 0 := .refl none t
  obtain ⟨count, hcount, hguarding⟩ := guarding_passes hselection (gatesOf figures) hnone
  rw [List.nil_append, Nat.zero_add] at hguarding
  obtain ⟨chains, hresult, htotal, hchains⟩ := hguarding.exists_chains
  refine ⟨⟨chains, Script.source_inserting _ t, hresult, fun place hne => ?_, fun place => ?_, ?_⟩, idle_of_passes,
    Rule.chain_scripts rule context t, forall₂_guardsCounted selection (gatesOf figures) t⟩
  · obtain ⟨hlt, hstart⟩ := (hchains place).1 hne
    exact ⟨hlt, startsLineAt_of_inFront (Nat.le_of_lt hlt) hstart⟩
  · obtain ⟨-, hgates, hguards⟩ := hchains place
    have hdifferent := hgates.nodup (List.nodup_reverse.2 (nodup_gatesOf figures))
    refine ⟨hgates, hdifferent, fun guard hmem => ⟨?_, hguards guard hmem⟩⟩
    exact mem_gatesOf.1 (List.mem_reverse.1 (hgates.subset (List.mem_map_of_mem hmem)))
  · rw [htotal]
    exact hcount

/-- Two tags above one registration line, with lone carriage returns for line breaks. -/
def loneReturns : Text :=
  "// figure0avatar\r// figure0hair2\rb.addTween(y);".toList

/-- The guards of hair and avatar are put in front of the line behind the second return. -/
theorem layerVisibility_insertions_loneReturns :
    let selection := selectionOf .aliased .standard
    let rule := Rule.layerVisibility 1 selection
    let once := rule.apply ⟨"walk".toList, .lf⟩ loneReturns
    Palette.standard.problems = []
      ∧ once = ⟨"// figure0avatar\r// figure0hair2\r".toList
        ++ "if (this.assetPalette.figure == 0 && this.assetPalette.hair == 2)".toList
        ++ "if (this.assetPalette.figure == 0)b.addTween(y);".toList, 2⟩
      ∧ (∃ chains : Nat → Guards,
        let script := Script.inserting (fun place => (chains place).text) loneReturns
        script.source = loneReturns ∧ script.result = once.text
          ∧ (∀ place, chains place ≠ [] → place < loneReturns.length ∧ StartsLineAt loneReturns place)
          ∧ (∀ place, ((chains place).map Prod.fst).Sublist (gatesOf 1).reverse
            ∧ ((chains place).map Prod.fst).Nodup
            ∧ ∀ guard ∈ chains place, guard.1.figure < 1 ∧ guard.1.IsGuard selection guard.2)
          ∧ ((List.range loneReturns.length).flatMap chains).length ≤ once.replacements)
      ∧ (once.replacements = 0 → once.text = loneReturns ∧ ∀ gate ∈ gatesOf 1, gate.Idle loneReturns)
      ∧ Script.Chain loneReturns (rule.scripts ⟨"walk".toList, .lf⟩ loneReturns) once.text
      ∧ List.Forall₂ (fun gate script => gate.GuardsCounted selection script) (gatesOf 1)
        (rule.scripts ⟨"walk".toList, .lf⟩ loneReturns) :=
  ⟨by decide, by decide +kernel, layerVisibility_insertions (by decide) .aliased 1 ⟨"walk".toList, .lf⟩ loneReturns⟩

/-! ### The digits of hair and eyes -/

/-- The number that a script reads a run of digits as, outside strict mode: in base eight if the run starts with a zero
    and has no digit above seven. -/
def scriptValue (digits : Text) : Nat :=
  if digits.head? = some '0' ∧ (digits.all fun c => Text.digitValue c < 8) = true then
    digits.foldl (fun value c => value * 8 + Text.digitValue c) 0
  else
    Text.digitsValue digits

theorem scriptValue_of_noNeedlessZero {digits : Text} (h : Text.NoNeedlessZero digits) :
    scriptValue digits = Text.digitsValue digits := by
  rw [scriptValue]
  split
  · rename_i hoctal
    rw [h hoctal.1]
    decide
  · rfl

theorem eq_numeral_iff {digits : Text} (hne : digits ≠ []) (hdigits : WrittenIn Char.isDigit digits) :
    digits = Text.numeral (Text.digitsValue digits) ↔ Text.NoNeedlessZero digits := by
  constructor
  · intro heq
    rw [heq]
    exact Text.noNeedlessZero_numeral _
  · exact fun hzero => (Text.numeral_digitsValue hdigits hne hzero).symm

namespace Rule

/-- Every line that a pass for hair or eyes counts starts, when the pass is done, with a guard that compares with all
    the digits of a tag, as they stand. The pass has read the tag; if the selection is a plain reference, the tag stands
    in the document. The digits are the numeral of the tag's number exactly if they have no needless zero, and then a
    script reads that number. -/
def LayerGate.ComparesDigits (gate : LayerGate) (selection document : Text) (script : Script) : Prop :=
  ∀ above old new below, script = above ++ .swap old new :: below → ∃ digits guard, gate.TagIn digits script.source
    ∧ (WrittenIn argumentChar selection → gate.TagIn digits document)
    ∧ guard = "if (".toList ++ selection ++ ".figure == ".toList ++ Text.numeral gate.figure ++ " && ".toList
      ++ selection ++ ['.'] ++ gate.kind.word ++ " == ".toList ++ digits ++ [')']
    ∧ old = [] ∧ (new = guard ∨ new = [] ∧ guard <+: Script.result below)
    ∧ (digits = Text.numeral (Text.digitsValue digits) ↔ Text.NoNeedlessZero digits)
    ∧ (Text.NoNeedlessZero digits → scriptValue digits = Text.digitsValue digits)

theorem LayerGate.guard_eq {gate : LayerGate} (hkind : gate.kind ≠ .avatar) (selection digits : Text) :
    gate.guard selection digits = "if (".toList ++ selection ++ ".figure == ".toList ++ Text.numeral gate.figure
      ++ " && ".toList ++ selection ++ ['.'] ++ gate.kind.word ++ " == ".toList ++ digits ++ [')'] := by
  rw [guard, condition]
  cases hgate : gate.kind with
  | avatar => exact absurd hgate hkind
  | hair | eyes => simp

/-- A pass for hair or eyes over a text in which the passes before it have guarded the document. -/
theorem LayerGate.comparesDigits_script {gate : LayerGate} (hkind : gate.kind ≠ .avatar) {selection document t : Text}
    (hguarded : WrittenIn argumentChar selection → ∃ gates before count,
      Guarding selection gates before document t count) :
    gate.ComparesDigits selection document ((gate.recognizer selection).script t) := by
  intro above old new below hsplit
  obtain ⟨there, layer, hthere, hlayer, hold, hnew⟩ := LayerGate.counts_of_swap hsplit
  have htag := gate.tagIn_of_layer? hthere hlayer hkind
  refine ⟨layer.suffix, gate.guard selection layer.suffix, ?_, fun hselection => ?_,
    gate.guard_eq hkind selection layer.suffix, hold, hnew, eq_numeral_iff htag.1 htag.2.1,
    scriptValue_of_noNeedlessZero⟩
  · rwa [Recognizer.source_script (gate.recognizer_faithful selection)]
  · obtain ⟨gates, before, count, hguarding⟩ := hguarded hselection
    exact hguarding.tagIn hselection htag

theorem forall₂_comparesDigits {selection document : Text} (gates : List LayerGate) {t : Text}
    (hguarded : WrittenIn argumentChar selection → ∃ done before count,
      Guarding selection done before document t count) :
    List.Forall₂ (fun gate script => gate.kind ≠ .avatar → gate.ComparesDigits selection document script) gates
      (Rewrite.scriptsOf (gates.map fun gate => (gate.recognizer selection).script) t) := by
  induction gates generalizing t with
  | nil => exact .nil
  | cons gate gates ih =>
      refine .cons (fun hkind => gate.comparesDigits_script hkind hguarded) (ih fun hselection => ?_)
      obtain ⟨done, before, count, hguarding⟩ := hguarded hselection
      obtain ⟨more, -, hpass⟩ := gate.guarding_script selection before t
      exact ⟨_, before, _, hguarding.trans hselection hpass⟩

end Rule

/-- The scripts of the gates lead from the document to what the rule writes, and each guard for hair or eyes among them
    compares with all the digits of a tag, as they stand. -/
theorem layerVisibility_digits (figures : Nat) (selection : Text) (context : DocumentContext) (t : Text) :
    let rule := Rule.layerVisibility figures selection
    Script.Chain t (rule.scripts context t) (rule.apply context t).text
      ∧ List.Forall₂ (fun gate script => gate.kind ≠ .avatar → gate.ComparesDigits selection t script)
        (gatesOf figures) (rule.scripts context t) :=
  ⟨Rule.chain_scripts _ context t,
    forall₂_comparesDigits (gatesOf figures) fun _ => ⟨[], none, 0, Guarding.refl none t⟩⟩

/-- Hair number ten, written with three digits. -/
def paddedHair : Text :=
  "// figure0hair010\na.addTween(x);".toList

/-- The guard compares with the digits `010`, which are not the numeral of ten, and which a script reads as eight. -/
theorem not_layerVisibility_canonical :
    let selection := selectionOf .aliased .standard
    let digits := "010".toList
    (Rule.layerVisibility 1 selection).apply ⟨"walk".toList, .lf⟩ paddedHair
        = ⟨"// figure0hair010\n".toList ++ LayerGate.guard ⟨0, .hair⟩ selection digits ++ "a.addTween(x);".toList, 1⟩
      ∧ LayerGate.guard ⟨0, .hair⟩ selection digits
        = "if (this.assetPalette.figure == 0 && this.assetPalette.hair == 010)".toList
      ∧ LayerGate.TagIn ⟨0, .hair⟩ digits paddedHair
      ∧ digits ≠ Text.numeral (Text.digitsValue digits) ∧ Text.digitsValue digits = 10 ∧ scriptValue digits = 8 := by
  refine ⟨by decide +kernel, by decide +kernel, ⟨by decide, by decide, [], "\na.addTween(x);".toList, ?_, ?_⟩,
    by decide, by decide, by decide⟩
  · decide +kernel
  · exact ends_cons.2 (by decide)

end CanvasExport
