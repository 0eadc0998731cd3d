/-
Module: CanvasExport.Proofs.Palette.Indexed
Layer: Proofs
Purpose: Swapping indexed fills. The two numbers of a color become numerals, every literal of such a color is swapped
  where it stands, and what is written makes no new one. So a second run finds nothing, and swapping the colors of a
  palette that names no such color comes to the same before and after.
Main exports: trimIndex_eq_numeral, IndexesFill, indexesFill_of_swap, swapIndexed_steady, indexedPaletteColors_exact
-/
import CanvasExport.Proofs.Palette.Colors
import CanvasExport.Proofs.Text.Numeral

namespace CanvasExport

namespace Rule

/-! ### Indices as numerals -/

/-- The digits of a color are read as a number and written as its numeral. -/
theorem trimIndex_eq_numeral {digits : Text} (h : WrittenIn Char.isDigit digits) :
    trimIndex digits = Text.numeral (Text.digitsValue digits) := by
  rw [← Text.digitsValue_dropWhile_zero digits, trimIndex]
  have hwritten := writtenIn_dropWhile (p := (· == '0')) h
  have hhead := Text.head?_dropWhile_zero digits
  generalize digits.dropWhile (· == '0') = trimmed at hwritten hhead ⊢
  cases trimmed with
  | nil => decide
  | cons c rest =>
      have hzero : Text.NoNeedlessZero (c :: rest) := fun hstarts => absurd hstarts hhead
      exact (Text.numeral_digitsValue hwritten (List.cons_ne_nil _ _) hzero).symm

/-- A literal of an indexed color and the reference to the slot of the table that it names. -/
def IndexesFill (table old new : Text) : Prop :=
  ∃ c p₁ p₂ s₁ s₂, (c = 'C' ∨ c = 'c') ∧ (∀ d ∈ [p₁, p₂, s₁, s₂], d.isDigit = true)
    ∧ old = fillLiteral ['#', c, '0', p₁, p₂, s₁, s₂]
    ∧ new = fillReference (table ++ ['['] ++ Text.numeral (Text.digitsValue [p₁, p₂]) ++ [']', '[']
      ++ Text.numeral (Text.digitsValue [s₁, s₂]) ++ [']'])

theorem indexesFill_of_swap {table t old new : Text} (h : Edit.swap old new ∈ (swapIndexed table).script t) :
    IndexesFill table old new := by
  obtain ⟨_, _, s, -, hs, hmem⟩ := Recognizer.exists_of_swap_mem_script h
  obtain ⟨fill, hfill, rfl⟩ := Option.map_eq_some_iff.1 hs
  obtain ⟨c, p₁, p₂, s₁, s₂, rest, hc, hdigits, -, rfl⟩ := eq_literal_of_indexedFill? hfill
  obtain ⟨rfl, rfl⟩ := Edit.swap.inj (List.mem_singleton.1 hmem)
  have hdigits : ∀ d ∈ [p₁, p₂, s₁, s₂], d.isDigit = true := List.all_eq_true.1 hdigits
  have hpalette : WrittenIn Char.isDigit [p₁, p₂] := fun d hd => hdigits d (List.mem_append_left [s₁, s₂] hd)
  have hslot : WrittenIn Char.isDigit [s₁, s₂] := fun d hd => hdigits d (List.mem_append_right [p₁, p₂] hd)
  refine ⟨c, p₁, p₂, s₁, s₂, by simpa using hc, hdigits, rfl, ?_⟩
  rw [trimIndex_eq_numeral hpalette, trimIndex_eq_numeral hslot]

/-! ### Beside other colors -/

theorem swapIndexed_steady (table : Text) : Steady (swapIndexed table) IsIndexColor := by
  rintro color ⟨c, p₁, p₂, s₁, s₂, rfl, hc, hdigits⟩ below other
  simp only [swapIndexed, indexedFill?_literal hc hdigits]

/-- The letter of an indexed color. -/
theorem getElem?_of_isIndexColor {color : Text} (h : IsIndexColor color) :
    color[1]? = some 'C' ∨ color[1]? = some 'c' := by
  obtain ⟨c, p₁, p₂, s₁, s₂, rfl, hc, -⟩ := h
  simpa using hc

end Rule

open Rule

/-- Each fill of an indexed color is swapped for the slot that its numbers name, and all other text is kept; a swap
    stands wherever such a fill stands. None is left or made, so a second run finds nothing. Where a palette names
    no indexed color, swapping its colors before or after leads to the same text, and each rule counts what it
    counts alone. -/
theorem indexedPaletteColors_exact {table : Text} (h : isIdentifier table = true) (context : DocumentContext)
    (t : Text) :
    let rule := Rule.indexedPaletteColors table
    let script := (swapIndexed table).script t
    let once := rule.apply context t
    script.source = t ∧ once = ⟨script.result, script.places.length⟩
      ∧ (∀ old new, .swap old new ∈ script → IndexesFill table old new)
      ∧ script.places.Pairwise (· < ·)
      ∧ (∀ place, place ∈ script.places ↔ ∃ color, IsIndexColor color ∧ fillLiteral color <+: t.drop place)
      ∧ (∀ color, IsIndexColor color → ¬ fillLiteral color <:+: once.text)
      ∧ rule.apply context once.text = ⟨once.text, 0⟩
      ∧ ∀ palette : Palette, palette.problems = [] → (∀ entry ∈ palette.colors.entries, ¬ IsIndexColor entry.1) →
        let colors := Rule.paletteColors palette.colors.entries
        let other := colors.apply context t
        colors.apply context once.text = ⟨(rule.apply context other.text).text, other.replacements⟩
          ∧ (rule.apply context other.text).replacements = once.replacements := by
  intro rule script once
  have hswap := swapIndexed_fillSwap h
  have hclear : ∀ color, IsIndexColor color → ¬ fillLiteral color <:+: once.text := fun color hcolor hoccurs =>
    (hswap.infix_of_infix_result (hswap.colors hcolor) t hoccurs).2 hcolor
  have honce : once = ⟨script.result, script.places.length⟩ := by
    rw [Script.length_places]
    rfl
  have hagain : rule.apply context once.text = ⟨once.text, 0⟩ := by
    have happly : rule.apply context once.text = .ofScript ((swapIndexed table).script once.text) := rfl
    rw [happly, Rewrite.ofScript, hswap.result_of_clear hclear, hswap.swaps_of_clear hclear]
  refine ⟨Recognizer.source_script hswap.inline.faithful t, honce, fun _ _ => indexesFill_of_swap,
    Script.pairwise_places fun _ _ => hswap.old_ne_nil, hswap.mem_places t, hclear, hagain, ?_⟩
  intro palette hproblems hother colors other
  have hcolors := (Palette.valid_of_problems hproblems).distinctColors
  have hdisjoint : ∀ color, IsIndexColor color → ¬ ∃ slot, (color, slot) ∈ palette.colors.entries := by
    rintro color hcolor ⟨slot, hmem⟩
    exact hother (color, slot) hmem hcolor
  have hpass : ∀ t : Text, colors.apply context t = .ofScript ((swapAny palette.colors.entries).script t) :=
    passes_eq_swapAny hcolors
  obtain ⟨hresult, hlater, hearlier⟩ := FillSwap.commute hswap (swapAny_fillSwap hcolors) hdisjoint
    (swapIndexed_steady table) (swapAny_steady hcolors) t
  have htext : other.text = ((swapAny palette.colors.entries).script t).result := congrArg Rewrite.text (hpass t)
  have hcount : other.replacements = ((swapAny palette.colors.entries).script t).swaps :=
    congrArg Rewrite.replacements (hpass t)
  constructor
  · rw [hpass, htext, hcount]
    exact congr (congrArg Rewrite.mk hresult) hlater
  · rw [htext]
    exact hearlier

/-- Indexed fills in either case, one of them broken off by the next, beside a fill of the built-in palette and one
    that carries no numbers. -/
def indexedFills : Text :=
  "graphics.f(\"graphics.f(\"#C00010\").s()graphics.f(\"#c01205\").s();".toList
    ++ "graphics.f(\"#FFCC99\").s();graphics.f(\"#C0FF01\").s()".toList

/-- The table's slots are written as numbers without needless zeros. -/
theorem indexedPaletteColors_exact_indexedFills :
    let table := "assetPalettes".toList
    let context : DocumentContext := ⟨"walk".toList, .lf⟩
    let rule := Rule.indexedPaletteColors table
    let script := (swapIndexed table).script indexedFills
    let once := rule.apply context indexedFills
    let colors := Rule.paletteColors Palette.standard.colors.entries
    let other := colors.apply context indexedFills
    isIdentifier table = true ∧ Palette.standard.problems = []
      ∧ (∀ entry ∈ Palette.standard.colors.entries, ¬ IsIndexColor entry.1)
      ∧ once.text = "graphics.f(\"graphics.f(assetPalettes[0][10]).s()graphics.f(assetPalettes[12][5]).s();".toList
        ++ "graphics.f(\"#FFCC99\").s();graphics.f(\"#C0FF01\").s()".toList
      ∧ script.source = indexedFills ∧ once = ⟨script.result, script.places.length⟩
      ∧ (∀ old new, .swap old new ∈ script → IndexesFill table old new)
      ∧ script.places.Pairwise (· < ·)
      ∧ (∀ place, place ∈ script.places ↔ ∃ color, IsIndexColor color ∧ fillLiteral color <+: indexedFills.drop place)
      ∧ (∀ color, IsIndexColor color → ¬ fillLiteral color <:+: once.text)
      ∧ rule.apply context once.text = ⟨once.text, 0⟩
      ∧ colors.apply context once.text = ⟨(rule.apply context other.text).text, other.replacements⟩
      ∧ (rule.apply context other.text).replacements = once.replacements := by
  intro table context rule script once colors other
  have htable : isIdentifier table = true := by decide
  have hvalid : Palette.standard.problems = [] := by decide
  have hother : ∀ entry ∈ Palette.standard.colors.entries, ¬ IsIndexColor entry.1 := by
    have hletters : ∀ entry ∈ Palette.standard.colors.entries, entry.1[1]? ≠ some 'C' ∧ entry.1[1]? ≠ some 'c' := by
      decide
    intro entry hmem hindex
    exact (getElem?_of_isIndexColor hindex).elim (hletters entry hmem).1 (hletters entry hmem).2
  obtain ⟨hsource, honce, hswaps, hplaces, hmem, hclear, hagain, hcommute⟩ :=
    indexedPaletteColors_exact htable context indexedFills
  obtain ⟨hlater, hearlier⟩ := hcommute Palette.standard hvalid hother
  exact ⟨htable, hvalid, hother, by decide +kernel, hsource, honce, hswaps, hplaces, hmem, hclear, hagain, hlater,
    hearlier⟩

end CanvasExport
