/-
Module: CanvasExport.Proofs.Palette.Colors
Layer: Proofs
Purpose: Swapping the colors of a palette. The colors are swapped one after the other, each pass over the text that the
  last one wrote. No literal starts within what a pass writes, and within what it reads only the literal itself
  does; so the passes come to one pass for all colors at once, whatever their order, and nothing is left for
  a second run.
Main exports: swapAny, swapAny_eq_some_iff, script_swapAny_cons, swaps_swapAny, paletteColors_simultaneous
-/
import CanvasExport.Proofs.Publish.Run
import CanvasExport.Proofs.Rule.Literals

namespace CanvasExport

namespace Rule

/-! ### All colors in one pass -/

/-- Swaps the fills of every color of a table, each for its slot, in a single pass. -/
def swapAny (colors : List (Text × Text)) : Recognizer := fun before t =>
  colors.findSome? fun entry => swapColor entry.1 entry.2 before t

theorem swapAny_cons (entry : Text × Text) (colors : List (Text × Text)) (before : Option Char) (t : Text) :
    swapAny (entry :: colors) before t = (swapColor entry.1 entry.2 before t).or (swapAny colors before t) := by
  rw [swapAny, List.findSome?_cons]
  cases swapColor entry.1 entry.2 before t <;> rfl

/-- A table with valid keys and slots in which no key stands twice. -/
structure DistinctColors (colors : List (Text × Text)) : Prop where
  valid : ∀ entry ∈ colors, isColorKey entry.1 = true ∧ isIdentifier entry.2 = true
  distinct : (colors.map Prod.fst).Nodup

namespace DistinctColors

variable {colors : List (Text × Text)}

theorem of_cons {entry : Text × Text} (h : DistinctColors (entry :: colors)) : DistinctColors colors where
  valid other hmem := h.valid other (List.mem_cons_of_mem _ hmem)
  distinct := (List.nodup_cons.1 h.distinct).2

theorem perm (h : DistinctColors colors) {order : List (Text × Text)} (horder : order.Perm colors) :
    DistinctColors order where
  valid entry hmem := h.valid entry (horder.mem_iff.1 hmem)
  distinct := (horder.map Prod.fst).nodup_iff.2 h.distinct

theorem writtenIn (h : DistinctColors colors) {entry : Text × Text} (hmem : entry ∈ colors) :
    WrittenIn colorChar entry.1 :=
  writtenIn_of_isColorKey (h.valid entry hmem).1

end DistinctColors

theorem swapColor_eq_some_iff {color slot t : Text} {before : Option Char} {s : Script} :
    swapColor color slot before t = some s
      ↔ fillLiteral color <+: t ∧ s = [.swap (fillLiteral color) (slotReference slot)] := by
  rw [swapColor, Recognizer.literal_eq]
  split
  · rename_i hstarts
    simp [hstarts, eq_comm]
  · rename_i hstarts
    simp [hstarts]

variable {colors : List (Text × Text)}

/-- The pass swaps what one of the colors swaps. -/
theorem swapAny_eq_some_iff (h : DistinctColors colors) {t : Text} {before : Option Char} {s : Script} :
    swapAny colors before t = some s ↔ ∃ entry ∈ colors, fillLiteral entry.1 <+: t
      ∧ s = [.swap (fillLiteral entry.1) (slotReference entry.2)] := by
  induction colors with
  | nil => simp [swapAny]
  | cons entry colors ih =>
      rw [swapAny_cons, Option.or_eq_some_iff, swapColor_eq_some_iff, ih h.of_cons, List.exists_mem_cons_iff]
      refine or_congr_right ⟨fun hlater => hlater.2, fun hlater => ⟨?_, hlater⟩⟩
      -- A later color starts at the same place, and it is another one.
      obtain ⟨other, hmem, ⟨rest, rfl⟩, -⟩ := hlater
      cases hfirst : swapColor entry.1 entry.2 before (fillLiteral other.1 ++ rest) with
      | none => rfl
      | some first =>
          have hentry := h.writtenIn List.mem_cons_self
          have hother := h.of_cons.writtenIn hmem
          have hkey := eq_of_prefix_literal hother hentry (swapColor_eq_some_iff.1 hfirst).1
          exact absurd (hkey ▸ List.mem_map_of_mem hmem) (List.nodup_cons.1 h.distinct).1

/-- The order of the colors does not matter. -/
theorem swapAny_perm (h : DistinctColors colors) {order : List (Text × Text)} (horder : order.Perm colors) :
    swapAny order = swapAny colors := by
  funext before t
  ext s
  rw [swapAny_eq_some_iff (h.perm horder), swapAny_eq_some_iff h]
  simp only [horder.mem_iff]

theorem swapAny_inline (h : DistinctColors colors) : (swapAny colors).Inline where
  faithful before t s hs := by
    obtain ⟨entry, -, ⟨rest, hrest⟩, rfl⟩ := (swapAny_eq_some_iff h).1 hs
    refine ⟨by simpa [Edit.source] using fillLiteral_ne_nil entry.1, rest, ?_⟩
    simpa [Edit.source] using hrest.symm
  contextFree _ _ := rfl
  stops c hc t below := by
    ext s
    rw [swapAny_eq_some_iff h, swapAny_eq_some_iff h]
    have hstarts : ∀ entry ∈ colors, (fillLiteral entry.1 <+: t ++ c :: below ↔ fillLiteral entry.1 <+: t) := by
      intro entry hmem
      have hquoted := unbroken_fillReference (writtenIn_quoted (h.writtenIn hmem))
      refine prefix_append_cons_iff fun hc' => ?_
      rw [hquoted c hc'] at hc
      contradiction
    exact exists_congr fun entry => and_congr_right fun hmem => and_congr_left' (hstarts entry hmem)

theorem swapAny_fillSwap (h : DistinctColors colors) :
    FillSwap (swapAny colors) (fun color => ∃ slot, (color, slot) ∈ colors) where
  inline := swapAny_inline h
  colors := by
    rintro color ⟨slot, hmem⟩
    exact h.writtenIn hmem
  found {t s} hs := by
    obtain ⟨entry, hmem, ⟨rest, hrest⟩, rfl⟩ := (swapAny_eq_some_iff h).1 hs
    have hslot := (writtenIn_of_isIdentifier (h.valid entry hmem).2).argument
    exact ⟨entry.1, _, rest, ⟨entry.2, hmem⟩, WrittenIn.append_iff.2 ⟨by decide, hslot⟩, hrest.symm, rfl⟩
  complete {color} := by
    rintro ⟨slot, hmem⟩ rest
    rw [(swapAny_eq_some_iff h).2 ⟨_, hmem, List.prefix_append _ rest, rfl⟩]
    exact Option.some_ne_none _

/-- What the pass does with a literal does not depend on what follows. -/
theorem swapAny_literal_append (h : DistinctColors colors) {color : Text} (hcolor : WrittenIn colorChar color)
    (below other : Text) :
    swapAny colors none (fillLiteral color ++ below) = swapAny colors none (fillLiteral color ++ other) := by
  have hstarts : ∀ entry ∈ colors, ∀ rest : Text,
      (fillLiteral entry.1 <+: fillLiteral color ++ rest ↔ entry.1 = color) := by
    intro entry hmem rest
    refine ⟨fun hstarts => eq_of_prefix_literal hcolor (h.writtenIn hmem) hstarts, fun heq => ?_⟩
    exact heq ▸ List.prefix_append _ _
  ext s
  rw [swapAny_eq_some_iff h, swapAny_eq_some_iff h]
  refine exists_congr fun entry => and_congr_right fun hmem => and_congr_left' ?_
  rw [hstarts entry hmem, hstarts entry hmem]

theorem swapAny_steady (h : DistinctColors colors) :
    Steady (swapAny colors) (fun color => ∃ slot, (color, slot) ∈ colors) := by
  rintro color ⟨slot, hmem⟩ below other
  exact swapAny_literal_append h (h.writtenIn hmem) below other

/-- Swapping one color and then all others in one pass comes to one pass for all of them. -/
theorem script_swapAny_cons {entry : Text × Text} (h : DistinctColors (entry :: colors)) (t : Text) :
    ((swapAny colors).script ((swapColor entry.1 entry.2).script t).result).result
        = ((swapAny (entry :: colors)).script t).result
      ∧ ((swapColor entry.1 entry.2).script t).swaps
          + ((swapAny colors).script ((swapColor entry.1 entry.2).script t).result).swaps
        = ((swapAny (entry :: colors)).script t).swaps := by
  have hentry := h.valid entry List.mem_cons_self
  have hboth : swapAny (entry :: colors) = either (swapColor entry.1 entry.2) (swapAny colors) := by
    funext before t
    exact swapAny_cons entry colors before t
  rw [hboth]
  exact (swapColor_fillSwap hentry.1 hentry.2).script_either (swapAny_fillSwap h.of_cons) (swapAny_steady h.of_cons) t

/-- The passes for the colors of a table come to one pass for all of them. -/
theorem passes_eq_swapAny (h : DistinctColors colors) (t : Text) :
    Rewrite.passes t (colors.map fun entry => (swapColor entry.1 entry.2).script)
      = .ofScript ((swapAny colors).script t) := by
  induction colors generalizing t with
  | nil =>
      have hscript : (swapAny []).script t = Script.keeps t := by
        have hkept : (swapAny []).script (t ++ []) = Script.keeps t ++ (swapAny []).script [] :=
          Recognizer.script_append_of_none (fun _ _ => rfl) fun _ _ _ => rfl
        simpa [Recognizer.script, sweep] using hkept
      rw [Rewrite.ofScript, hscript, Script.result_keeps, Script.swaps_keeps]
      rfl
  | cons entry colors ih =>
      obtain ⟨hresult, hswaps⟩ := script_swapAny_cons h t
      rw [List.map_cons, Rewrite.passes_cons, ih h.of_cons, Rewrite.ofScript, Rewrite.ofScript, hresult, hswaps]

/-! ### How many fills there are -/

/-- A literal is the only one that starts within it. -/
theorem occurrences_literal {color other : Text} (hcolor : WrittenIn colorChar color)
    (hother : WrittenIn colorChar other) (below : Text) :
    Text.occurrences (fillLiteral other) (fillLiteral color ++ below)
      = (if other = color then 1 else 0) + Text.occurrences (fillLiteral other) below := by
  by_cases hsame : other = color
  · rw [if_pos hsame, hsame]
    exact Text.occurrences_self_append (selfDisjoint_fillLiteral hcolor) (fillLiteral_ne_nil color) below
  · rw [if_neg hsame, Nat.zero_add]
    refine Text.occurrences_append_of_not_prefix fun start hne hstart hstarts => hsame ?_
    exact eq_of_prefix_literal hcolor hother (prefix_of_literal hcolor hne hstart hstarts ▸ hstarts)

/-- A pass swaps each occurrence of its literal. -/
theorem swaps_swapColor {color : Text} (hcolor : isColorKey color = true) (slot t : Text) :
    ((swapColor color slot).script t).swaps = Text.occurrences (fillLiteral color) t :=
  Recognizer.swaps_literal _ (fillLiteral_ne_nil color) (selfDisjoint_fillLiteral (writtenIn_of_isColorKey hcolor)) t

/-- A pass leaves each literal of another color where it was, and makes none. -/
theorem FillSwap.occurrences_result {r : Recognizer} {handles : Text → Prop} (h : FillSwap r handles) {color : Text}
    (hcolor : WrittenIn colorChar color) (hother : ¬ handles color) (t : Text) :
    Text.occurrences (fillLiteral color) (r.script t).result = Text.occurrences (fillLiteral color) t := by
  refine Recognizer.script_induction h.inline.faithful h.inline.contextFree
    (motive := fun t s => Text.occurrences (fillLiteral color) s.result = Text.occurrences (fillLiteral color) t)
    rfl (fun c rest hnone hrest => ?kept) (fun s rest _ hs hrest => ?found) t
  case kept =>
    have hscript := Recognizer.script_cons_of_none h.inline.contextFree hnone
    have hhead : fillLiteral color <+: c :: (r.script rest).result ↔ fillLiteral color <+: c :: rest := by
      refine ⟨h.prefix_of_prefix_kept hcolor, ?_⟩
      rintro ⟨below, hbelow⟩
      have hpast := h.script_other hcolor (hbelow ▸ hnone)
      have hresult := congrArg Script.result (hscript.symm.trans (hbelow ▸ hpast))
      rw [Script.result_cons, Script.result_append, Script.result_keeps] at hresult
      exact ⟨_, hresult.symm⟩
    rw [Script.result_cons, Edit.result, List.singleton_append, Text.occurrences, Text.occurrences, hrest]
    simp only [hhead]
  case found =>
    obtain ⟨swapped, argument, _, hswapped, hargument, -, rfl⟩ := h.found hs
    have hne : color ≠ swapped := fun heq => hother (heq ▸ hswapped)
    have hreference : Text.occurrences (fillLiteral color) (fillReference argument ++ (r.script rest).result)
        = Text.occurrences (fillLiteral color) (r.script rest).result :=
      Text.occurrences_append_of_not_prefix fun _ hne hstart => not_prefix_of_reference hargument hne hstart color _
    simpa [Edit.source, Edit.result, occurrences_literal (h.colors hswapped) hcolor, hne, hreference] using hrest

/-- The pass for all colors swaps each occurrence of each literal. -/
theorem swaps_swapAny (h : DistinctColors colors) (t : Text) :
    ((swapAny colors).script t).swaps
      = totalOf (fun color => Text.occurrences (fillLiteral color) t) (colors.map Prod.fst) := by
  induction colors generalizing t with
  | nil =>
      have hone := congrArg Rewrite.replacements (passes_eq_swapAny h t)
      exact hone.symm
  | cons entry colors ih =>
      have hentry := h.valid entry List.mem_cons_self
      have hone := swapColor_fillSwap hentry.1 hentry.2
      have hothers : ∀ color ∈ colors.map Prod.fst,
          Text.occurrences (fillLiteral color) ((swapColor entry.1 entry.2).script t).result
            = Text.occurrences (fillLiteral color) t := by
        intro color hmem
        obtain ⟨other, hother, rfl⟩ := List.mem_map.1 hmem
        refine hone.occurrences_result (h.of_cons.writtenIn hother) (fun heq => ?_) t
        exact (List.nodup_cons.1 h.distinct).1 (heq ▸ hmem)
      rw [← (script_swapAny_cons h t).2, ih h.of_cons, swaps_swapColor hentry.1, List.map_cons,
        totalOf_cons, totalOf_congr hothers]

end Rule

/-! ### The colors of a palette -/

/-- The table of a valid palette is one of different colors. -/
theorem Palette.Valid.distinctColors {palette : Palette} (h : palette.Valid) :
    Rule.DistinctColors palette.colors.entries where
  valid := h.colors
  distinct := by
    refine List.pairwise_map.2 (palette.colors.ascending.imp fun {first second} hbefore heq => ?_)
    rw [heq, Text.precedes_irrefl] at hbefore
    contradiction

/-- Swapping the colors of a palette one after the other is one pass from left to right for all of them. Their order
    does not matter, every occurrence of every literal is counted, and a second run finds nothing. -/
theorem paletteColors_simultaneous {palette : Palette} (h : palette.problems = []) (context : DocumentContext)
    (t : Text) :
    let colors := palette.colors.entries
    let once := (Rule.paletteColors colors).apply context t
    once = .ofScript ((Rule.swapAny colors).script t)
      ∧ (∀ order : List (Text × Text), order.Perm colors → (Rule.paletteColors order).apply context t = once)
      ∧ once.replacements
        = totalOf (fun color => Text.occurrences (Rule.fillLiteral color) t) (colors.map Prod.fst)
      ∧ (∀ entry ∈ colors, ¬ Rule.fillLiteral entry.1 <:+: once.text)
      ∧ (Rule.paletteColors colors).apply context once.text = ⟨once.text, 0⟩ := by
  intro colors once
  have hcolors : Rule.DistinctColors colors := (Palette.valid_of_problems h).distinctColors
  have honce : once = .ofScript ((Rule.swapAny colors).script t) := Rule.passes_eq_swapAny hcolors t
  have hclear : ∀ color, (∃ slot, (color, slot) ∈ colors) → ¬ Rule.fillLiteral color <:+: once.text := by
    intro color hcolor hoccurs
    have hswap := Rule.swapAny_fillSwap hcolors
    rw [honce] at hoccurs
    exact (hswap.infix_of_infix_result (hswap.colors hcolor) t hoccurs).2 hcolor
  refine ⟨honce, fun order horder => ?_, ?_, fun entry hmem => hclear entry.1 ⟨entry.2, hmem⟩, ?_⟩
  · rw [honce, ← Rule.swapAny_perm hcolors horder]
    exact Rule.passes_eq_swapAny (hcolors.perm horder) t
  · rw [honce]
    exact Rule.swaps_swapAny hcolors t
  · have hagain : (Rule.paletteColors colors).apply context once.text
        = .ofScript ((Rule.swapAny colors).script once.text) := Rule.passes_eq_swapAny hcolors once.text
    have hswap := Rule.swapAny_fillSwap hcolors
    rw [hagain, Rewrite.ofScript, hswap.result_of_clear hclear, hswap.swaps_of_clear hclear]

/-- Fills of two colors side by side. The first is broken off where the second starts. -/
def adjacentFills : Text :=
  "graphics.f(\"graphics.f(\"#FFCC99\").s()graphics.f(\"#666600\").s();graphics.f(\"#FFCC99\").s()".toList

/-- The built-in palette swaps the three whole fills. -/
theorem paletteColors_simultaneous_adjacentFills :
    let colors := Palette.standard.colors.entries
    let once := (Rule.paletteColors colors).apply ⟨"walk".toList, .lf⟩ adjacentFills
    Palette.standard.problems = []
      ∧ once.text = "graphics.f(\"graphics.f(this.assetPalette.skinA).s()graphics.f(this.assetPalette.eyeA).s();".toList
        ++ "graphics.f(this.assetPalette.skinA).s()".toList
      ∧ once = .ofScript ((Rule.swapAny colors).script adjacentFills)
      ∧ (∀ order : List (Text × Text), order.Perm colors →
        (Rule.paletteColors order).apply ⟨"walk".toList, .lf⟩ adjacentFills = once)
      ∧ once.replacements
        = totalOf (fun color => Text.occurrences (Rule.fillLiteral color) adjacentFills) (colors.map Prod.fst)
      ∧ (∀ entry ∈ colors, ¬ Rule.fillLiteral entry.1 <:+: once.text)
      ∧ (Rule.paletteColors colors).apply ⟨"walk".toList, .lf⟩ once.text = ⟨once.text, 0⟩ :=
  ⟨by decide, by decide +kernel, paletteColors_simultaneous (by decide) _ adjacentFills⟩

end CanvasExport
