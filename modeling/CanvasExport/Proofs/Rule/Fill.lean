/-
Module: CanvasExport.Proofs.Rule.Fill
Layer: Proofs
Purpose: Swapping fill literals. Both variants read a literal with a quoted color and write a reference without
  quotes; from that alone follows that a swap can make no new literal, that none of its colors is left behind,
  and that nothing else about a text is changed by it.
Main exports: FillSwap, swapColor_fillSwap, swapIndexed_fillSwap, FillSwap.infix_of_infix_result,
  FillSwap.result_of_clear, FillSwap.view_result, swept, FillSwaps.swept_clear, FillSwaps.swept_of_clear,
  FillSwaps.view_swept, infix_fillReference_iff
-/
import CanvasExport.Proofs.Rule.Alias
import CanvasExport.Proofs.Text.Alphabet
import CanvasExport.Rule.Fill

namespace CanvasExport.Rule

/-! ### The parts of a fill call -/

/-- A fill call up to its parenthesis. -/
def fillHead : Text := "graphics.f".toList

/-- A fill call behind its argument's parenthesis. -/
def fillTail : Text := ".s()".toList

theorem fillOpening_eq : "graphics.f(".toList = fillHead ++ ['('] := by
  decide

theorem fillClosing_eq : ").s()".toList = ')' :: fillTail := by
  decide

theorem fillReference_eq (argument : Text) :
    fillReference argument = fillHead ++ '(' :: (argument ++ ')' :: fillTail) := by
  unfold fillReference
  rw [fillOpening_eq, fillClosing_eq]
  simp only [List.append_assoc, List.cons_append, List.nil_append]

theorem fillLiteral_eq (color : Text) :
    fillLiteral color = (fillHead ++ ['(']) ++ '"' :: (color ++ '"' :: ')' :: fillTail) := by
  unfold fillLiteral
  rw [fillReference_eq]
  simp only [List.append_assoc, List.cons_append, List.nil_append]

theorem fillHead_eq_cons : fillHead = 'g' :: "raphics.f".toList := by
  decide

theorem fillLiteral_eq_cons (color : Text) :
    fillLiteral color = 'g' :: (("raphics.f".toList ++ ['(']) ++ '"' :: (color ++ '"' :: ')' :: fillTail)) := by
  rw [fillLiteral_eq, fillHead_eq_cons, List.cons_append, List.cons_append]

/-- Behind its first letter a literal has no other `g`. -/
theorem letter_not_mem_literal {color : Text} (hcolor : WrittenIn colorChar color) :
    'g' ∉ ("raphics.f".toList ++ ['(']) ++ '"' :: (color ++ '"' :: ')' :: fillTail) := by
  have hclosing : 'g' ∉ fillTail := by decide
  have hinside : 'g' ∉ color := hcolor.not_mem (by decide)
  simp [hclosing, hinside]

theorem writtenIn_fillHead : WrittenIn argumentChar fillHead := by
  decide

theorem paren_not_mem_fillHead : ')' ∉ fillHead ++ ['('] := by
  decide

/-- A reference up to its last parenthesis. -/
theorem fillReference_eq_append (argument : Text) :
    fillReference argument = (fillHead ++ '(' :: (argument ++ ')' :: ".s(".toList)) ++ [')'] := by
  have htail : fillTail = ".s(".toList ++ [')'] := by decide
  rw [fillReference_eq, htail]
  simp only [List.append_assoc, List.cons_append]

/-- A reference has no quote, as a literal has. -/
theorem quote_not_mem_reference {argument : Text} (hargument : WrittenIn argumentChar argument) :
    '"' ∉ fillHead ++ '(' :: (argument ++ ')' :: ".s(".toList) := by
  have hhead : '"' ∉ fillHead := writtenIn_fillHead.not_mem rfl
  have hinside : '"' ∉ argument := hargument.not_mem rfl
  simp [hhead, hinside]

theorem unbroken_fillTail : Unbroken fillTail := by
  decide

/-- The characters of the arguments of fill calls, be they quoted colors or references. -/
def fillChar (c : Char) : Bool :=
  argumentChar c || colorChar c || c == '"'

theorem writtenIn_reference {argument : Text} (h : WrittenIn argumentChar argument) :
    WrittenIn fillChar argument :=
  h.mono fun c hc => by simp [fillChar, hc]

theorem writtenIn_quoted {color : Text} (h : WrittenIn colorChar color) :
    WrittenIn fillChar (['"'] ++ color ++ ['"']) := by
  have hcolor : WrittenIn fillChar color := h.mono fun c hc => by simp [fillChar, hc]
  have hquote : WrittenIn fillChar ['"'] := by decide
  exact (hquote.append hcolor).append hquote

/-- A recognizer of the fill literals of some colors. It reads a literal and writes a reference. -/
structure FillSwap (r : Recognizer) (handles : Text → Prop) : Prop where
  inline : r.Inline
  colors : ∀ {color}, handles color → WrittenIn colorChar color
  found : ∀ {t s}, r none t = some s → ∃ color argument rest, handles color
    ∧ WrittenIn argumentChar argument ∧ t = fillLiteral color ++ rest
    ∧ s = [.swap (fillLiteral color) (fillReference argument)]
  complete : ∀ {color}, handles color → ∀ rest, r none (fillLiteral color ++ rest) ≠ none

/-! ### The fills of one color -/

theorem fillLiteral_ne_nil (color : Text) : fillLiteral color ≠ [] := by
  simp [fillLiteral_eq]

theorem unbroken_fillReference {argument : Text} (h : WrittenIn fillChar argument) :
    Unbroken (fillReference argument) := by
  have hhead : Unbroken fillHead := writtenIn_fillHead.unbroken rfl rfl
  have hargument : Unbroken argument := h.unbroken rfl rfl
  rw [fillReference_eq]
  exact unbroken_append.2 ⟨hhead, unbroken_cons.2 ⟨rfl, unbroken_append.2 ⟨hargument, unbroken_cons.2
    ⟨rfl, unbroken_fillTail⟩⟩⟩⟩

theorem swapColor_fillSwap {color slot : Text} (hcolor : isColorKey color = true)
    (hslot : isIdentifier slot = true) : FillSwap (swapColor color slot) (· = color) where
  inline := by
    have hquoted := writtenIn_quoted (writtenIn_of_isColorKey hcolor)
    exact Recognizer.literal_inline _ (fillLiteral_ne_nil color) (unbroken_fillReference hquoted)
  colors {other} hother := hother ▸ writtenIn_of_isColorKey hcolor
  found {t s} hs := by
    rw [swapColor, Recognizer.literal_eq] at hs
    split at hs
    · rename_i hhead
      obtain ⟨rest, hrest⟩ := hhead
      have hslot := (writtenIn_of_isIdentifier hslot).argument
      have hreference : WrittenIn argumentChar ("this.assetPalette.".toList ++ slot) :=
        WrittenIn.append_iff.2 ⟨by decide, hslot⟩
      exact ⟨color, _, rest, rfl, hreference, hrest.symm, (Option.some.inj hs).symm⟩
    · contradiction
  complete {other} hother rest := by
    rw [hother, swapColor, Recognizer.literal_eq, if_pos (List.prefix_append _ _)]
    exact Option.some_ne_none _

/-! ### Indexed fills -/

/-- A color that carries palette and slot numbers. -/
def IsIndexColor (color : Text) : Prop :=
  ∃ c p₁ p₂ s₁ s₂, color = ['#', c, '0', p₁, p₂, s₁, s₂] ∧ (c == 'C' || c == 'c') = true
    ∧ [p₁, p₂, s₁, s₂].all Char.isDigit = true

/-- The indexed fill of a color that carries numbers. -/
theorem indexedFill?_literal {c p₁ p₂ s₁ s₂ : Char} (hc : (c == 'C' || c == 'c') = true)
    (hdigits : [p₁, p₂, s₁, s₂].all Char.isDigit = true) (rest : Text) :
    indexedFill? (fillLiteral ['#', c, '0', p₁, p₂, s₁, s₂] ++ rest)
      = some ⟨fillLiteral ['#', c, '0', p₁, p₂, s₁, s₂], [p₁, p₂], [s₁, s₂]⟩ := by
  have hopening : Text.strip? "graphics.f(\"#".toList (fillLiteral ['#', c, '0', p₁, p₂, s₁, s₂] ++ rest)
      = some (c :: '0' :: p₁ :: p₂ :: s₁ :: s₂ :: ("\").s()".toList ++ rest)) := Text.strip?_eq_some_iff.2 rfl
  have hclosing : Text.strip? "\").s()".toList ("\").s()".toList ++ rest) = some rest :=
    Text.strip?_eq_some_iff.2 rfl
  rw [indexedFill?, hopening]
  simp only [Option.bind_eq_bind, Option.bind_some, hc, hdigits, Bool.and_self, if_true, hclosing]

theorem eq_literal_of_indexedFill? {t : Text} {fill : IndexedFill} (h : indexedFill? t = some fill) :
    ∃ c p₁ p₂ s₁ s₂ rest, (c == 'C' || c == 'c') = true ∧ [p₁, p₂, s₁, s₂].all Char.isDigit = true
      ∧ t = fillLiteral ['#', c, '0', p₁, p₂, s₁, s₂] ++ rest
      ∧ fill = ⟨fillLiteral ['#', c, '0', p₁, p₂, s₁, s₂], [p₁, p₂], [s₁, s₂]⟩ := by
  obtain ⟨rest, hrest⟩ := prefix_of_indexedFill? h
  obtain ⟨afterOpening, -, h⟩ := Option.bind_eq_some_iff.1 h
  split at h
  · rename_i c p₁ p₂ s₁ s₂ _
    split at h
    · rename_i hcolor
      obtain ⟨_, -, h⟩ := Option.bind_eq_some_iff.1 h
      obtain rfl := Option.some.inj h
      obtain ⟨hc, hdigits⟩ := (Bool.and_eq_true _ _).mp hcolor
      exact ⟨c, p₁, p₂, s₁, s₂, rest, hc, hdigits, hrest, rfl⟩
    · contradiction
  · contradiction

theorem writtenIn_indexColor {color : Text} (h : IsIndexColor color) : WrittenIn colorChar color := by
  obtain ⟨c, p₁, p₂, s₁, s₂, rfl, hc, hdigits⟩ := h
  have hdigit : ∀ d : Char, d.isDigit = true → colorChar d = true := by
    intro d hd
    simp [colorChar, Text.hexValue?, hd]
  have hletter : colorChar c = true := by
    rcases (Bool.or_eq_true _ _).mp hc with hc | hc
    · rw [beq_iff_eq.1 hc]
      decide
    · rw [beq_iff_eq.1 hc]
      decide
  simp only [List.all_cons, List.all_nil, Bool.and_eq_true, Bool.and_true] at hdigits
  simp [hletter, hdigit, hdigits, show colorChar '#' = true by decide]

theorem writtenIn_trimIndex {digits : Text} (h : digits.all Char.isDigit = true) :
    WrittenIn argumentChar (trimIndex digits) := by
  have hdigit : ∀ c : Char, c.isDigit = true → argumentChar c = true := by
    intro c hc
    simp [argumentChar, identifierChar, hc]
  rw [trimIndex]
  split
  · decide
  · intro c hmem
    exact hdigit c (List.all_eq_true.1 h c ((List.dropWhile_suffix _).subset hmem))

theorem swapIndexed_stopsAt (table : Text) {c : Char} (hc : endsLine (some c) = true) :
    (swapIndexed table).StopsAt c := by
  intro t below
  have hstops : indexedFill? (t ++ c :: below) = indexedFill? t := by
    cases hfill : indexedFill? (t ++ c :: below) with
    | some fill =>
        obtain ⟨d, p₁, p₂, s₁, s₂, rest, hd, hdigits, hwhole, rfl⟩ := eq_literal_of_indexedFill? hfill
        have hcolor := writtenIn_quoted (writtenIn_indexColor ⟨d, p₁, p₂, s₁, s₂, rfl, hd, hdigits⟩)
        have hmem : c ∉ fillLiteral ['#', d, '0', p₁, p₂, s₁, s₂] := by
          intro hmem
          rw [unbroken_fillReference hcolor c hmem] at hc
          contradiction
        obtain ⟨within, hwithin⟩ := (prefix_append_cons_iff hmem).1 ⟨rest, hwhole.symm⟩
        rw [← hwithin, indexedFill?_literal hd hdigits]
    | none =>
        cases hshort : indexedFill? t with
        | none => rfl
        | some fill =>
            obtain ⟨d, p₁, p₂, s₁, s₂, rest, hd, hdigits, rfl, -⟩ := eq_literal_of_indexedFill? hshort
            rw [List.append_assoc, indexedFill?_literal hd hdigits] at hfill
            contradiction
  simp only [swapIndexed, hstops]

theorem swapIndexed_fillSwap {table : Text} (htable : isIdentifier table = true) :
    FillSwap (swapIndexed table) IsIndexColor where
  inline := ⟨swapIndexed_faithful table, fun _ _ => rfl, fun _ => swapIndexed_stopsAt table⟩
  colors := writtenIn_indexColor
  found {t s} hs := by
    obtain ⟨fill, hfill, rfl⟩ := Option.map_eq_some_iff.1 hs
    obtain ⟨c, p₁, p₂, s₁, s₂, rest, hc, hdigits, hrest, rfl⟩ := eq_literal_of_indexedFill? hfill
    have hindex : IsIndexColor ['#', c, '0', p₁, p₂, s₁, s₂] := ⟨c, p₁, p₂, s₁, s₂, rfl, hc, hdigits⟩
    simp only [List.all_cons, List.all_nil, Bool.and_eq_true, Bool.and_true] at hdigits
    have hpalette : WrittenIn argumentChar (trimIndex [p₁, p₂]) := writtenIn_trimIndex (by simp [hdigits])
    have hslot : WrittenIn argumentChar (trimIndex [s₁, s₂]) := writtenIn_trimIndex (by simp [hdigits])
    have htable := (writtenIn_of_isIdentifier htable).argument
    have hopens : argumentChar '[' = true := by decide
    have hcloses : argumentChar ']' = true := by decide
    exact ⟨_, _, rest, hindex, by simp [htable, hpalette, hslot, hopens, hcloses], hrest, rfl⟩
  complete {color} hcolor rest := by
    obtain ⟨c, p₁, p₂, s₁, s₂, rfl, hc, hdigits⟩ := hcolor
    rw [swapIndexed, indexedFill?_literal hc hdigits]
    exact Option.some_ne_none _

/-! ### What a swap leaves behind -/

/-- A literal that reaches over the end of a reference would have its quote in it. -/
theorem literal_infix_behind {color argument below : Text} (hargument : WrittenIn argumentChar argument) :
    fillLiteral color <:+: fillReference argument ++ below ↔ fillLiteral color <:+: below := by
  rw [fillReference_eq_append, List.append_assoc, List.singleton_append, fillLiteral_eq]
  exact infix_behind_cons_iff (quote_not_mem_reference hargument) (by decide) paren_not_mem_fillHead

namespace FillSwap

variable {r : Recognizer} {handles : Text → Prop}

/-- The head of a rewritten text up to the next reference was there before. -/
theorem prefix_of_prefix_result (h : FillSwap r handles) {needle : Text} (hneedle : 'g' ∉ needle) (t : Text) :
    needle <+: (r.script t).result → needle <+: t := by
  refine Recognizer.prefix_of_prefix_result h.inline.faithful h.inline.contextFree (fun t s hs => ?_) hneedle t
  obtain ⟨_, argument, _, -, -, -, rfl⟩ := h.found hs
  rw [Script.result_cons, Edit.result, fillReference_eq, fillHead_eq_cons]
  exact ⟨_, rfl⟩

/-- A literal that a kept character opens in a rewritten text was there before: behind its first letter no
    reference reaches into it. -/
theorem prefix_of_prefix_kept (h : FillSwap r handles) {color : Text} (hcolor : WrittenIn colorChar color)
    {c : Char} {rest : Text} (hstarts : fillLiteral color <+: c :: (r.script rest).result) :
    fillLiteral color <+: c :: rest := by
  rw [fillLiteral_eq_cons, List.cons_prefix_cons] at hstarts ⊢
  exact ⟨hstarts.1, h.prefix_of_prefix_result (letter_not_mem_literal hcolor) rest hstarts.2⟩

/-- A literal in a rewritten text was there before, and its color is not one that is swapped. -/
theorem infix_of_infix_result (h : FillSwap r handles) {color : Text} (hcolor : WrittenIn colorChar color)
    (t : Text) :
    fillLiteral color <:+: (r.script t).result → fillLiteral color <:+: t ∧ ¬ handles color := by
  refine Recognizer.script_induction h.inline.faithful h.inline.contextFree
    (motive := fun t s => fillLiteral color <:+: s.result → fillLiteral color <:+: t ∧ ¬ handles color)
    (fun hoccurs => ?_) (fun c rest hnone hrest hoccurs => ?_) (fun s rest _ hs hrest hoccurs => ?_) t
  · exact absurd (List.infix_nil.1 hoccurs) (fillLiteral_ne_nil color)
  · have hoccurs : fillLiteral color <:+: c :: Script.result (r.script rest) := by
      simpa [Edit.result] using hoccurs
    rcases List.infix_cons_iff.1 hoccurs with hhead | hrest'
    · have hhead := h.prefix_of_prefix_kept hcolor hhead
      refine ⟨hhead.isInfix, fun hhandles => ?_⟩
      obtain ⟨after, hafter⟩ := hhead
      exact h.complete hhandles after (hafter ▸ hnone)
    · obtain ⟨hbefore, hhandles⟩ := hrest hrest'
      exact ⟨hbefore.trans (List.suffix_cons _ _).isInfix, hhandles⟩
  · obtain ⟨_, argument, _, -, hargument, -, rfl⟩ := h.found hs
    have hoccurs : fillLiteral color <:+: fillReference argument ++ Script.result (r.script rest) := by
      simpa [Edit.result] using hoccurs
    obtain ⟨hbefore, hhandles⟩ := hrest ((literal_infix_behind hargument).1 hoccurs)
    exact ⟨hbefore.trans (List.suffix_append _ _).isInfix, hhandles⟩

/-- In a text without literals of the colors nothing is found. -/
theorem swaps_of_clear (h : FillSwap r handles) {t : Text}
    (hclear : ∀ color, handles color → ¬ fillLiteral color <:+: t) : (r.script t).swaps = 0 := by
  revert hclear
  refine Recognizer.script_induction h.inline.faithful h.inline.contextFree
    (motive := fun t s => (∀ color, handles color → ¬ fillLiteral color <:+: t) → s.swaps = 0)
    (fun _ => rfl) (fun c rest _ hrest hclear => ?_) (fun s rest _ hs _ hclear => ?_) t
  · rw [Script.swaps_keep]
    exact hrest fun color hcolor hoccurs => hclear color hcolor (hoccurs.trans (List.suffix_cons _ _).isInfix)
  · obtain ⟨color, _, after, hcolor, -, hwhole, -⟩ := h.found hs
    exact absurd ⟨[], after, by simp [hwhole]⟩ (hclear color hcolor)

/-- Such a text is left as it is. -/
theorem result_of_clear (h : FillSwap r handles) {t : Text}
    (hclear : ∀ color, handles color → ¬ fillLiteral color <:+: t) : (r.script t).result = t := by
  rw [Script.result_of_swaps_eq_zero (h.swaps_of_clear hclear), Recognizer.source_script h.inline.faithful]

/-- A view that does not depend on the arguments of fill calls is not changed by swapping fills. -/
theorem view_result {β : Type} (view : Text → β) (h : FillSwap r handles)
    (hview : ∀ first second above below, WrittenIn fillChar first → WrittenIn fillChar second →
      view (above ++ fillReference first ++ below) = view (above ++ fillReference second ++ below)) (t : Text) :
    view (r.script t).result = view t := by
  refine Recognizer.view_result view h.inline.faithful (fun before there s hs old new hmem above below => ?_) t
  rw [h.inline.contextFree] at hs
  obtain ⟨color, argument, _, hcolor, hargument, -, rfl⟩ := h.found hs
  obtain ⟨rfl, rfl⟩ : old = fillLiteral color ∧ new = fillReference argument := by simpa using hmem
  exact hview _ _ above below (writtenIn_quoted (h.colors hcolor)) (writtenIn_reference hargument)

/-- Swapping fills breaks no line. -/
theorem unbroken_result (h : FillSwap r handles) {t : Text} (ht : Unbroken t) :
    Unbroken (r.script t).result := by
  have hview : Unbroken (r.script t).result = Unbroken t := by
    refine h.view_result (fun t => Unbroken t) (fun first second above below hfirst hsecond => ?_) t
    simp [unbroken_fillReference hfirst, unbroken_fillReference hsecond]
  exact hview ▸ ht

end FillSwap

/-! ### Several colors, one sweep after the other -/

/-- The text after one sweep for each recognizer. -/
def swept (rs : List Recognizer) (t : Text) : Text :=
  rs.foldl (fun t r => (r.script t).result) t

/-- Recognizers that together swap the fills of the configured colors. -/
structure FillSwaps (rs : List Recognizer) (configured : Text → Prop) : Prop where
  sound : ∀ r ∈ rs, ∃ handles, FillSwap r handles ∧ ∀ color, handles color → configured color
  covers : ∀ color, configured color → ∃ r ∈ rs, ∃ handles, FillSwap r handles ∧ handles color

theorem infix_of_infix_swept {rs : List Recognizer} (hrs : ∀ r ∈ rs, ∃ handles, FillSwap r handles)
    {color : Text} (hcolor : WrittenIn colorChar color) {t : Text} (h : fillLiteral color <:+: swept rs t) :
    fillLiteral color <:+: t ∧ ∀ r ∈ rs, ∀ handles, FillSwap r handles → ¬ handles color := by
  induction rs generalizing t with
  | nil => exact ⟨h, by simp⟩
  | cons r rs ih =>
      obtain ⟨hlater, hrest⟩ := ih (fun other hmem => hrs other (List.mem_cons_of_mem _ hmem)) h
      obtain ⟨handles, hr⟩ := hrs r List.mem_cons_self
      refine ⟨(hr.infix_of_infix_result hcolor t hlater).1, ?_⟩
      rw [List.forall_mem_cons]
      exact ⟨fun _ hswap => (hswap.infix_of_infix_result hcolor t hlater).2, hrest⟩

namespace FillSwaps

variable {rs : List Recognizer} {configured : Text → Prop}

/-- No literal of a configured color is left. -/
theorem swept_clear (h : FillSwaps rs configured) {color : Text} (hcolor : configured color) (t : Text) :
    ¬ fillLiteral color <:+: swept rs t := by
  obtain ⟨r, hmem, handles, hr, hhandles⟩ := h.covers color hcolor
  have hrs : ∀ r ∈ rs, ∃ handles, FillSwap r handles := fun r hmem => (h.sound r hmem).imp fun _ hr => hr.1
  intro hoccurs
  exact (infix_of_infix_swept hrs (hr.colors hhandles) hoccurs).2 r hmem handles hr hhandles

/-- Where there is no such literal the sweeps change nothing. -/
theorem swept_of_clear (h : FillSwaps rs configured) {t : Text}
    (hclear : ∀ color, configured color → ¬ fillLiteral color <:+: t) : swept rs t = t := by
  have hsound := h.sound
  clear h
  induction rs with
  | nil => rfl
  | cons r rs ih =>
      rw [List.forall_mem_cons] at hsound
      obtain ⟨⟨handles, hr, hconfigured⟩, hsound⟩ := hsound
      have hfirst : (r.script t).result = t :=
        hr.result_of_clear fun color hcolor => hclear color (hconfigured color hcolor)
      rw [swept, List.foldl_cons, hfirst]
      exact ih hsound

/-- A view that does not depend on the arguments of fill calls is the same after all sweeps. -/
theorem view_swept {β : Type} (view : Text → β) (h : FillSwaps rs configured)
    (hview : ∀ first second above below, WrittenIn fillChar first → WrittenIn fillChar second →
      view (above ++ fillReference first ++ below) = view (above ++ fillReference second ++ below)) (t : Text) :
    view (swept rs t) = view t := by
  have hsound := h.sound
  clear h
  induction rs generalizing t with
  | nil => rfl
  | cons r rs ih =>
      rw [List.forall_mem_cons] at hsound
      obtain ⟨⟨handles, hr, -⟩, hsound⟩ := hsound
      exact (ih _ hsound).trans (hr.view_result view hview t)

end FillSwaps

/-! ### Views that no fill changes -/

/-- A needle without parentheses lies beside a fill call or in its argument. -/
theorem infix_fillReference_iff {needle argument : Text} (hopen : '(' ∉ needle) (hclose : ')' ∉ needle)
    (hargument : ¬ needle <:+: argument) (above below : Text) :
    needle <:+: above ++ fillReference argument ++ below
      ↔ needle <:+: above ++ fillHead ∨ needle <:+: fillTail ++ below := by
  have hwhole : above ++ fillReference argument ++ below
      = (above ++ fillHead) ++ '(' :: (argument ++ ')' :: (fillTail ++ below)) := by
    rw [fillReference_eq]
    simp only [List.append_assoc, List.cons_append]
  rw [hwhole, infix_append_cons_iff hopen, infix_append_cons_iff hclose]
  simp [hargument]

theorem prefix_fillReference_iff {needle : Text} (hopen : '(' ∉ needle) (argument above below : Text) :
    needle <+: above ++ fillReference argument ++ below ↔ needle <+: above ++ fillHead := by
  have hwhole : above ++ fillReference argument ++ below
      = (above ++ fillHead) ++ '(' :: (argument ++ ')' :: (fillTail ++ below)) := by
    rw [fillReference_eq]
    simp only [List.append_assoc, List.cons_append]
  rw [hwhole, prefix_append_cons_iff hopen]

theorem suffix_fillReference_iff {needle : Text} (hclose : ')' ∉ needle) (argument above below : Text) :
    needle <:+ above ++ fillReference argument ++ below ↔ needle <:+ fillTail ++ below := by
  have hwhole : above ++ fillReference argument ++ below
      = (above ++ fillHead ++ '(' :: argument) ++ ')' :: (fillTail ++ below) := by
    rw [fillReference_eq]
    simp only [List.append_assoc, List.cons_append]
  rw [hwhole, suffix_append_cons_iff hclose]

/-- A fixed line without the letter `f` has no fill call. -/
theorem ne_of_fillReference {line : Text} (hline : 'f' ∉ line) (argument above below : Text) :
    above ++ fillReference argument ++ below ≠ line := by
  rintro rfl
  have hmem : 'f' ∈ fillHead := by decide
  simp [fillReference_eq, hmem] at hline

/-- A fill call hides no opening, and closes each one above it. -/
theorem isConstructorLine_fillReference {argument : Text} (hargument : WrittenIn fillChar argument)
    (above below : Text) :
    isConstructorLine (above ++ fillReference argument ++ below) = true
      ↔ constructorOpening <:+: above ++ "graphics".toList ∨ isConstructorLine (fillTail ++ below) = true := by
  have hwhole : above ++ fillReference argument ++ below
      = (above ++ "graphics".toList) ++ '.' :: ('f' :: '(' :: argument ++ ')' :: (fillTail ++ below)) := by
    have hhead : fillHead = "graphics".toList ++ ['.', 'f'] := by decide
    rw [fillReference_eq, hhead]
    simp only [List.append_assoc, List.cons_append, List.nil_append]
  have hargument : ¬ constructorOpening <:+: 'f' :: '(' :: argument := by
    intro hoccurs
    have hcomma : ',' ∈ 'f' :: '(' :: argument := hoccurs.subset (by decide)
    have hinside : ',' ∉ argument := hargument.not_mem (by decide)
    simp [hinside] at hcomma
  rw [hwhole, isConstructorLine_append_cons (by decide), isConstructorLine_append_cons (by decide)]
  constructor
  · rintro (h | h | h | h | h)
    · exact .inl (infix_of_isConstructorLine h)
    · exact .inl h.1
    · exact absurd (infix_of_isConstructorLine h) hargument
    · exact absurd h.1 hargument
    · exact .inr h
  · rintro (h | h)
    · exact .inr (.inl ⟨h, by simp⟩)
    · exact .inr (.inr (.inr (.inr h)))

namespace FillSwaps

variable {rs : List Recognizer} {configured : Text → Prop}

theorem swept_eq_iff (h : FillSwaps rs configured) {line : Text} (hline : 'f' ∉ line) (t : Text) :
    swept rs t = line ↔ t = line := by
  refine iff_of_eq (h.view_swept (fun t => t = line) (fun first second above below _ _ => ?_) t)
  have hnot : ∀ argument, ¬ above ++ fillReference argument ++ below = line :=
    fun argument => ne_of_fillReference hline argument above below
  exact propext ⟨fun heq => absurd heq (hnot first), fun heq => absurd heq (hnot second)⟩

theorem isConstructorLine_swept (h : FillSwaps rs configured) (t : Text) :
    isConstructorLine (swept rs t) = isConstructorLine t := by
  refine h.view_swept isConstructorLine (fun first second above below hfirst hsecond => ?_) t
  rw [Bool.eq_iff_iff, isConstructorLine_fillReference hfirst, isConstructorLine_fillReference hsecond]

/-- A text without quotes has no literals. -/
theorem swept_of_quote_not_mem (h : FillSwaps rs configured) {t : Text} (ht : '"' ∉ t) : swept rs t = t :=
  h.swept_of_clear fun color _ hoccurs => ht (hoccurs.subset (by simp [fillLiteral_eq]))

end FillSwaps

end CanvasExport.Rule
