/-
Module: CanvasExport.Proofs.Text.Sweep
Layer: Proofs
Purpose: What a sweep writes. Two equations say how it goes on, behind a recognized stretch or behind a kept
  character; from them follow the laws of recognizers that never look across a line break, of literals, and
  of everything about a text that single replacements leave alone.
Main exports: sweep_of_some, sweep_of_none, sweep_induction, Recognizer.related_result, Recognizer.Inline,
  Recognizer.script_append_stop, Script.eq_of_transparent, Recognizer.swaps_literal_pos,
  Recognizer.result_literal_of_not_infix
-/
import CanvasExport.Proofs.Text.Lines
import CanvasExport.Text.Edit

namespace CanvasExport

namespace Script

@[simp] theorem source_nil : source [] = [] := rfl

@[simp] theorem result_nil : result [] = [] := rfl

@[simp] theorem swaps_nil : swaps [] = 0 := rfl

@[simp] theorem source_cons (e : Edit) (s : Script) : source (e :: s) = e.source ++ source s := by
  simp [source]

@[simp] theorem result_cons (e : Edit) (s : Script) : result (e :: s) = e.result ++ result s := by
  simp [result]

@[simp] theorem swaps_keep (t : Text) (s : Script) : swaps (.keep t :: s) = swaps s := by
  simp [swaps, Edit.isSwap]

@[simp] theorem swaps_swap (old new : Text) (s : Script) : swaps (.swap old new :: s) = swaps s + 1 := by
  simp [swaps, List.countP_cons, Edit.isSwap]

/-- The characters of a text, each kept. -/
def keeps (t : Text) : Script :=
  t.map fun c => .keep [c]

@[simp] theorem keeps_nil : keeps [] = [] := rfl

@[simp] theorem keeps_cons (c : Char) (t : Text) : keeps (c :: t) = .keep [c] :: keeps t := rfl

@[simp] theorem keeps_append (s t : Text) : keeps (s ++ t) = keeps s ++ keeps t := by
  simp [keeps]

@[simp] theorem result_keeps (t : Text) : result (keeps t) = t := by
  induction t with
  | nil => rfl
  | cons c t ih => simp [ih, Edit.result]

@[simp] theorem swaps_keeps (t : Text) : swaps (keeps t) = 0 := by
  induction t with
  | nil => rfl
  | cons c t ih => simp [ih]

/-- The script with every kept stretch cut into its characters. Scripts that differ only in how kept text is
    cut up have the same spread. -/
def spread (s : Script) : Script :=
  s.flatMap fun
    | .keep t => keeps t
    | .swap old new => [.swap old new]

@[simp] theorem spread_nil : spread [] = [] := rfl

@[simp] theorem spread_keep (t : Text) (s : Script) : spread (.keep t :: s) = keeps t ++ spread s := rfl

@[simp] theorem spread_swap (old new : Text) (s : Script) :
    spread (.swap old new :: s) = .swap old new :: spread s := rfl

@[simp] theorem spread_append (s₁ s₂ : Script) : spread (s₁ ++ s₂) = spread s₁ ++ spread s₂ := by
  simp [spread]

@[simp] theorem spread_keeps (t : Text) : spread (keeps t) = keeps t := by
  induction t with
  | nil => rfl
  | cons c t ih => simp [ih]

theorem result_spread (s : Script) : result (spread s) = result s := by
  induction s with
  | nil => rfl
  | cons e s ih => cases e <;> simp [ih, Edit.result]

theorem swaps_spread (s : Script) : swaps (spread s) = swaps s := by
  induction s with
  | nil => rfl
  | cons e s ih => cases e <;> simp [ih]

/-- The places in the read text at which a swap stands. -/
def places : Script → List Nat
  | [] => []
  | .keep t :: s => (places s).map (t.length + ·)
  | .swap old _ :: s => 0 :: (places s).map (old.length + ·)

theorem places_keeps_append (t : Text) (s : Script) :
    places (keeps t ++ s) = (places s).map (t.length + ·) := by
  induction t with
  | nil => simp
  | cons c t ih =>
      rw [keeps_cons, List.cons_append, places, ih, List.map_map]
      congr 1
      funext place
      simp only [Function.comp_apply, List.length_cons, List.length_nil]
      omega

theorem places_spread (s : Script) : places (spread s) = places s := by
  induction s with
  | nil => rfl
  | cons e s ih =>
      cases e with
      | keep t => rw [spread_keep, places_keeps_append, ih, places]
      | swap old new => rw [spread_swap, places, ih, places]

theorem length_places (s : Script) : s.places.length = s.swaps := by
  induction s with
  | nil => rfl
  | cons e s ih =>
      cases e with
      | keep t => simpa [places] using ih
      | swap old new => simpa [places] using ih

/-- Swaps that read something stand at different places, from left to right. -/
theorem pairwise_places {s : Script} (h : ∀ old new, .swap old new ∈ s → old ≠ []) :
    s.places.Pairwise (· < ·) := by
  induction s with
  | nil => exact List.Pairwise.nil
  | cons e s ih =>
      have hrest := ih fun old new hmem => h old new (List.mem_cons_of_mem _ hmem)
      have hshifted : ∀ length : Nat, ((places s).map (length + ·)).Pairwise (· < ·) := fun length =>
        List.pairwise_map.2 (hrest.imp fun hlt => Nat.add_lt_add_left hlt length)
      cases e with
      | keep t => exact hshifted t.length
      | swap old new =>
          have hpos : 0 < old.length := List.length_pos_iff.2 (h old new List.mem_cons_self)
          refine List.pairwise_cons.2 ⟨fun place hmem => ?_, hshifted old.length⟩
          obtain ⟨later, -, rfl⟩ := List.mem_map.1 hmem
          exact Nat.add_pos_left hpos later

/-- A script without swaps writes what it reads. -/
theorem result_of_swaps_eq_zero {s : Script} (h : s.swaps = 0) : s.result = s.source := by
  induction s with
  | nil => rfl
  | cons e s ih =>
      cases e with
      | keep t => simp [ih (by simpa using h), Edit.result, Edit.source]
      | swap old new => simp at h

/-- A view of a text that no single swap of a script changes, whatever stands around it, is the same before
    and after the script. -/
theorem eq_of_transparent {β : Type} (view : Text → β) {s : Script}
    (h : ∀ old new, .swap old new ∈ s → ∀ before after,
      view (before ++ old ++ after) = view (before ++ new ++ after)) :
    view s.source = view s.result := by
  suffices hall : ∀ written, view (written ++ s.source) = view (written ++ s.result) by
    simpa using hall []
  induction s with
  | nil => intro written; rfl
  | cons e s ih =>
      intro written
      have hrest := ih fun old new hmem => h old new (List.mem_cons_of_mem _ hmem)
      cases e with
      | keep t => simpa [Edit.source, Edit.result] using hrest (written ++ t)
      | swap old new =>
          have hswap := h old new List.mem_cons_self written (source s)
          calc view (written ++ source (.swap old new :: s))
              = view (written ++ old ++ source s) := by simp [Edit.source]
            _ = view (written ++ new ++ source s) := hswap
            _ = view (written ++ new ++ result s) := hrest (written ++ new)
            _ = view (written ++ result (.swap old new :: s)) := by simp [Edit.result]

end Script

/-! ### How a sweep goes on -/

/-- The character in front of a place, one character earlier. -/
theorem getLast?_cons_or (c : Char) (t : Text) (before : Option Char) :
    (c :: t).getLast?.or before = t.getLast?.or (some c) := by
  rw [List.getLast?_cons]
  cases t.getLast? <;> rfl

/-- Passing over the characters that a recognized stretch covers leads to the place behind them. -/
theorem sweep_pending (r : Recognizer) (before : Option Char) (covered rest : Text) :
    sweep r covered.length before (covered ++ rest) = sweep r 0 (covered.getLast?.or before) rest := by
  induction covered generalizing before with
  | nil => rfl
  | cons c covered ih => rw [List.length_cons, List.cons_append, sweep, ih, getLast?_cons_or]

/-- Behind a recognized stretch the sweep goes on. -/
theorem sweep_of_some {r : Recognizer} {before : Option Char} {t found rest : Text} {s : Script}
    (h : r before t = some s) (hsource : s.source = found) (hne : found ≠ []) (ht : t = found ++ rest) :
    sweep r 0 before t = s ++ sweep r 0 found.getLast? rest := by
  obtain ⟨c, covered, rfl⟩ := List.exists_cons_of_ne_nil hne
  subst ht
  have hlength : s.source.length - 1 = covered.length := by simp [hsource]
  have hlast : covered.getLast?.or (some c) = (c :: covered).getLast? := by
    rw [← getLast?_cons_or c covered none, Option.or_none]
  rw [List.cons_append, sweep, ← List.cons_append, h]
  dsimp only
  rw [hlength, sweep_pending, hlast]

/-- Where nothing is recognized the character is kept. -/
theorem sweep_of_none {r : Recognizer} {before : Option Char} {c : Char} {rest : Text}
    (h : r before (c :: rest) = none) :
    sweep r 0 before (c :: rest) = .keep [c] :: sweep r 0 (some c) rest := by
  rw [sweep, h]

/-- Induction along a sweep: the text ends, a character is kept, or a recognized stretch is passed. -/
theorem sweep_induction {r : Recognizer} (hr : r.Faithful) {motive : Option Char → Text → Script → Prop}
    (nil : ∀ before, motive before [] [])
    (kept : ∀ before c rest, r before (c :: rest) = none → motive (some c) rest (sweep r 0 (some c) rest) →
      motive before (c :: rest) (.keep [c] :: sweep r 0 (some c) rest))
    (found : ∀ before s rest, s.source ≠ [] → r before (s.source ++ rest) = some s →
      motive s.source.getLast? rest (sweep r 0 s.source.getLast? rest) →
      motive before (s.source ++ rest) (s ++ sweep r 0 s.source.getLast? rest))
    (before : Option Char) (t : Text) : motive before t (sweep r 0 before t) := by
  induction hlength : t.length using Nat.strongRecOn generalizing before t with
  | ind n ih =>
      cases t with
      | nil => exact nil before
      | cons c t =>
          cases hs : r before (c :: t) with
          | none =>
              have hrest := ih t.length (by simp [← hlength]) (some c) t rfl
              rw [sweep_of_none hs]
              exact kept before c t hs hrest
          | some s =>
              obtain ⟨hne, rest, hwhole⟩ := hr _ _ _ hs
              have hshorter : rest.length < n := by
                have hpos : 0 < s.source.length := List.length_pos_iff.2 hne
                have htotal := congrArg List.length hwhole
                simp only [List.length_append] at htotal
                omega
              have hrest := ih rest.length hshorter s.source.getLast? rest rfl
              rw [sweep_of_some hs rfl hne hwhole, hwhole]
              exact found before s rest hne (hwhole ▸ hs) hrest

/-- What each recognized stretch does to a text, whatever has been written above it, the whole script does. -/
theorem Recognizer.related_result {r : Recognizer} (hr : r.Faithful) {related : Text → Text → Prop}
    (refl : ∀ t, related t t) (trans : ∀ {t t' t''}, related t t' → related t' t'' → related t t'')
    (h : ∀ before s below, r before (s.source ++ below) = some s → ∀ above,
      related (above ++ (s.source ++ below)) (above ++ (s.result ++ below))) (t : Text) :
    related t (r.script t).result := by
  refine sweep_induction hr (motive := fun _ t s => ∀ above, related (above ++ t) (above ++ s.result))
    (fun _ above => refl _) (fun before c rest _ hrest above => ?kept)
    (fun before s rest _ hs hrest above => ?found) none t []
  case kept =>
    simpa [Edit.result] using hrest (above ++ [c])
  case found =>
    have hbelow := hrest (above ++ s.result)
    rw [List.append_assoc, List.append_assoc] at hbelow
    rw [Script.result_append]
    exact trans (h before s rest hs above) hbelow

/-- An edit of a sweep keeps one character or comes from the recognizer, for what stands at some place. -/
theorem mem_sweep {r : Recognizer} {pending : Nat} {before : Option Char} {t : Text} {e : Edit}
    (h : e ∈ sweep r pending before t) :
    (∃ c, e = .keep [c]) ∨ ∃ before there s, there <:+ t ∧ r before there = some s ∧ e ∈ s := by
  induction t generalizing pending before with
  | nil => simp [sweep] at h
  | cons c rest ih =>
      have hlater : ∀ {pending : Nat} {before : Option Char}, e ∈ sweep r pending before rest →
          (∃ c, e = .keep [c]) ∨ ∃ before there s, there <:+ c :: rest ∧ r before there = some s ∧ e ∈ s := by
        intro pending before hmem
        refine (ih hmem).imp_right ?_
        rintro ⟨before, there, s, hthere, hs⟩
        exact ⟨before, there, s, hthere.trans (List.suffix_cons _ _), hs⟩
      cases pending with
      | succ n => exact hlater h
      | zero =>
          rw [sweep] at h
          split at h
          · rename_i s hs
            rcases List.mem_append.1 h with hmem | hmem
            · exact .inr ⟨_, _, s, List.suffix_rfl, hs, hmem⟩
            · exact hlater hmem
          · rcases List.mem_cons.1 h with rfl | hmem
            · exact .inl ⟨c, rfl⟩
            · exact hlater hmem

/-- A swap in the script of a recognizer is a swap that the recognizer asks for. -/
theorem Recognizer.exists_of_swap_mem_script {r : Recognizer} {t old new : Text}
    (h : Edit.swap old new ∈ r.script t) :
    ∃ before there s, there <:+ t ∧ r before there = some s ∧ Edit.swap old new ∈ s := by
  rcases mem_sweep h with ⟨c, hkeep⟩ | hswap
  · contradiction
  · exact hswap

/-! ### Recognizers within lines -/

namespace Recognizer

/-- What stands behind the character does not matter to the recognizer. -/
def StopsAt (r : Recognizer) (c : Char) : Prop :=
  ∀ t below, r none (t ++ c :: below) = r none t

/-- A recognizer that looks at nothing but the rest of the line. -/
structure Inline (r : Recognizer) : Prop where
  faithful : r.Faithful
  /-- What stands before a place does not matter. -/
  contextFree : ∀ before t, r before t = r none t
  stops : ∀ c, endsLine (some c) = true → r.StopsAt c

theorem sweep_of_contextFree {r : Recognizer} (h : ∀ before t, r before t = r none t)
    (before : Option Char) (t : Text) : sweep r 0 before t = r.script t := by
  cases t with
  | nil => rfl
  | cons c rest => rw [script, sweep, sweep, h before]

theorem script_cons_of_none {r : Recognizer} (hfree : ∀ before t, r before t = r none t) {c : Char} {rest : Text}
    (h : r none (c :: rest) = none) : r.script (c :: rest) = .keep [c] :: r.script rest := by
  rw [script, sweep_of_none h, sweep_of_contextFree hfree]

theorem script_of_some {r : Recognizer} (hr : r.Faithful) (hfree : ∀ before t, r before t = r none t)
    {t rest : Text} {s : Script} (h : r none t = some s) (ht : t = s.source ++ rest) :
    r.script t = s ++ r.script rest := by
  rw [script, sweep_of_some h rfl (hr _ _ _ h).1 ht, sweep_of_contextFree hfree]

/-- Where nothing is recognized from any place of a stretch, the stretch is kept. -/
theorem script_append_of_none {r : Recognizer} (hfree : ∀ before t, r before t = r none t) {above below : Text}
    (h : ∀ start, start ≠ [] → start <:+ above → r none (start ++ below) = none) :
    r.script (above ++ below) = Script.keeps above ++ r.script below := by
  induction above with
  | nil => rfl
  | cons c above ih =>
      have hhere : r none (c :: (above ++ below)) = none := h (c :: above) (List.cons_ne_nil _ _) List.suffix_rfl
      have hrest := ih fun start hne hstart => h start hne (hstart.trans (List.suffix_cons _ _))
      rw [List.cons_append, script_cons_of_none hfree hhere, hrest]
      rfl

theorem Faithful.of_nil {r : Recognizer} (h : r.Faithful) : r none [] = none := by
  cases hs : r none [] with
  | none => rfl
  | some s =>
      obtain ⟨hne, rest, hrest⟩ := h _ _ _ hs
      exact absurd (List.append_eq_nil_iff.1 hrest.symm).1 hne

/-- Induction along the sweep of a recognizer that does not look back. -/
theorem script_induction {r : Recognizer} (hr : r.Faithful) (hfree : ∀ before t, r before t = r none t)
    {motive : Text → Script → Prop} (nil : motive [] [])
    (kept : ∀ c rest, r none (c :: rest) = none → motive rest (r.script rest) →
      motive (c :: rest) (.keep [c] :: r.script rest))
    (found : ∀ s rest, s.source ≠ [] → r none (s.source ++ rest) = some s → motive rest (r.script rest) →
      motive (s.source ++ rest) (s ++ r.script rest)) (t : Text) : motive t (r.script t) := by
  refine sweep_induction hr (motive := fun _ t s => motive t s) (fun _ => nil)
    (fun before c rest hnone hrest => ?kept) (fun before s rest hne hs hrest => ?found) none t
  case kept =>
    rw [sweep_of_contextFree hfree] at hrest ⊢
    exact kept c rest (hfree before _ ▸ hnone) hrest
  case found =>
    rw [sweep_of_contextFree hfree] at hrest ⊢
    exact found s rest hne (hfree before _ ▸ hs) hrest

/-- The script of a text with a character at which the recognizer stops is made of the scripts of the two
    sides. -/
theorem script_append_stop {r : Recognizer} (hr : r.Faithful) (hfree : ∀ before t, r before t = r none t)
    {c : Char} (hc : r.StopsAt c) (t below : Text) :
    r.script (t ++ c :: below) = r.script t ++ .keep [c] :: r.script below := by
  refine script_induction hr hfree (motive := fun t s => r.script (t ++ c :: below) = s ++ .keep [c] :: r.script below)
    ?_ (fun d t hnone hrest => ?_) (fun s t hne hs hrest => ?_) t
  · have hnone : r none (c :: below) = none := by
      simpa [hr.of_nil] using hc [] below
    rw [List.nil_append, script, sweep_of_none hnone, sweep_of_contextFree hfree]
    rfl
  · have hhere : r none (d :: (t ++ c :: below)) = none := (hc (d :: t) below).trans hnone
    rw [script, List.cons_append, sweep_of_none hhere, sweep_of_contextFree hfree, hrest]
    rfl
  · have hhere : r none (s.source ++ t ++ c :: below) = some s := (hc (s.source ++ t) below).trans hs
    rw [script, sweep_of_some hhere rfl hne (List.append_assoc _ _ _), sweep_of_contextFree hfree, hrest,
      List.append_assoc]

/-- A whole line break separates scripts as well. -/
theorem script_append_ending {r : Recognizer} (h : r.Inline) (t : Text) (ending : LineEnding) (below : Text) :
    r.script (t ++ (ending.text ++ below)) = r.script t ++ (Script.keeps ending.text ++ r.script below) := by
  have hbreak : ∀ c, endsLine (some c) = true → ∀ t below,
      r.script (t ++ c :: below) = r.script t ++ .keep [c] :: r.script below :=
    fun c hc => script_append_stop h.faithful h.contextFree (h.stops c hc)
  cases ending with
  | lf => exact hbreak '\n' rfl t below
  | crlf =>
      have hlf : r.script ('\n' :: below) = r.script [] ++ .keep ['\n'] :: r.script below :=
        hbreak '\n' rfl [] below
      calc r.script (t ++ (LineEnding.crlf.text ++ below))
          = r.script t ++ .keep ['\r'] :: r.script ('\n' :: below) := hbreak '\r' rfl t _
        _ = r.script t ++ (Script.keeps LineEnding.crlf.text ++ r.script below) := by rw [hlf]; rfl

/-- A view that no swap of the recognizer changes is the same before and after its script. -/
theorem view_result {β : Type} (view : Text → β) {r : Recognizer} (hr : r.Faithful)
    (h : ∀ before t s, r before t = some s → ∀ old new, .swap old new ∈ s → ∀ above below,
      view (above ++ old ++ below) = view (above ++ new ++ below)) (t : Text) :
    view (r.script t).result = view t := by
  have hswaps : ∀ old new, .swap old new ∈ r.script t → ∀ above below,
      view (above ++ old ++ below) = view (above ++ new ++ below) := by
    intro old new hmem
    rcases mem_sweep hmem with ⟨c, hkeep⟩ | ⟨before, there, s, -, hs, hmem⟩
    · cases hkeep
    · exact h before there s hs old new hmem
  rw [← Script.eq_of_transparent view hswaps, source_script hr]

/-- If everything that is written starts with one character, then what stands before the first such character
    was there before. -/
theorem prefix_of_prefix_result {r : Recognizer} (hr : r.Faithful) (hfree : ∀ before t, r before t = r none t)
    {c : Char} (hwrites : ∀ t s, r none t = some s → ∃ rest, s.result = c :: rest) {needle : Text}
    (hneedle : c ∉ needle) (t : Text) : needle <+: (r.script t).result → needle <+: t := by
  refine script_induction hr hfree
    (motive := fun t s => ∀ needle : Text, c ∉ needle → needle <+: s.result → needle <+: t)
    (fun _ _ hhead => hhead) (fun d rest _ hrest needle hneedle hhead => ?_)
    (fun s rest _ hs _ needle hneedle hhead => ?_) t needle hneedle
  · cases needle with
    | nil => exact List.nil_prefix
    | cons n needle =>
        have hhead : n :: needle <+: d :: Script.result (r.script rest) := by simpa [Edit.result] using hhead
        rw [List.cons_prefix_cons] at hhead ⊢
        exact ⟨hhead.1, hrest needle (fun hmem => hneedle (List.mem_cons_of_mem _ hmem)) hhead.2⟩
  · obtain ⟨written, hwritten⟩ := hwrites _ s hs
    cases needle with
    | nil => exact List.nil_prefix
    | cons n needle =>
        rw [Script.result_append, hwritten, List.cons_append, List.cons_prefix_cons] at hhead
        simp [hhead.1] at hneedle

/-! ### Literals -/

theorem literal_eq (needle image : Text) (before : Option Char) (t : Text) :
    literal needle image before t = if needle <+: t then some [.swap needle image] else none := by
  rw [literal]
  by_cases h : needle <+: t
  · obtain ⟨rest, hrest⟩ := h
    rw [if_pos ⟨rest, hrest⟩, Text.strip?_eq_some_iff.2 hrest.symm]
    rfl
  · rw [if_neg h]
    cases hstrip : Text.strip? needle t with
    | none => rfl
    | some rest => exact absurd ⟨rest, (Text.strip?_eq_some_iff.1 hstrip).symm⟩ h

/-- A literal is not continued behind a character that it does not hold. -/
theorem literal_stopsAt {needle : Text} (image : Text) {c : Char} (h : c ∉ needle) :
    (literal needle image).StopsAt c := by
  intro t below
  simp only [literal_eq, prefix_append_cons_iff h]

theorem literal_inline {needle : Text} (image : Text) (hne : needle ≠ []) (h : Unbroken needle) :
    (literal needle image).Inline where
  faithful := literal_faithful image hne
  contextFree _ _ := rfl
  stops c hc := literal_stopsAt image fun hmem => by simp [h c hmem] at hc

/-- A literal is replaced somewhere exactly if it occurs. -/
theorem swaps_literal_pos {needle : Text} (image : Text) (hne : needle ≠ []) (t : Text) :
    0 < ((literal needle image).script t).swaps ↔ needle <:+: t := by
  induction t with
  | nil => simp [script, sweep, hne]
  | cons c rest ih =>
      have hnext : ∀ before t, sweep (literal needle image) 0 before t = (literal needle image).script t :=
        sweep_of_contextFree fun _ _ => rfl
      by_cases h : needle <+: c :: rest
      · obtain ⟨after, hafter⟩ := id h
        have hhere : literal needle image none (c :: rest) = some [.swap needle image] := by
          rw [literal_eq, if_pos h]
        have hsource : Script.source [.swap needle image] = needle := by simp [Edit.source]
        rw [script, sweep_of_some hhere hsource hne hafter.symm]
        simp [h.isInfix]
      · have hhere : literal needle image none (c :: rest) = none := by rw [literal_eq, if_neg h]
        rw [script, sweep_of_none hhere, hnext, Script.swaps_keep, ih, List.infix_cons_iff]
        simp [h]

/-- Where a literal does not occur nothing is written anew. -/
theorem result_literal_of_not_infix {needle : Text} (image : Text) (hne : needle ≠ []) {t : Text}
    (h : ¬ needle <:+: t) : ((literal needle image).script t).result = t := by
  have hswaps : ((literal needle image).script t).swaps = 0 := by
    have hpos := mt (swaps_literal_pos image hne t).1 h
    omega
  rw [Script.result_of_swaps_eq_zero hswaps, source_script (literal_faithful image hne)]

/-- A view that the swap of a literal never changes is the same after all its occurrences are replaced. -/
theorem view_result_literal {β : Type} (view : Text → β) {needle image : Text} (hne : needle ≠ [])
    (h : ∀ above below, view (above ++ needle ++ below) = view (above ++ image ++ below)) (t : Text) :
    view ((literal needle image).script t).result = view t := by
  refine view_result view (literal_faithful image hne) ?_ t
  intro before there s hs old new hmem
  rw [literal_eq] at hs
  split at hs
  · obtain rfl := Option.some.inj hs
    obtain ⟨rfl, rfl⟩ : old = needle ∧ new = image := by simpa using hmem
    exact h
  · contradiction

/-- Nothing is written anew where a text replaces itself. -/
theorem result_literal_self {needle : Text} (hne : needle ≠ []) (t : Text) :
    ((literal needle needle).script t).result = t :=
  view_result_literal (fun t => t) hne (fun _ _ => rfl) t

/-- Within a line a view needs to ignore the swap only between texts that break no line. -/
theorem view_result_literal_line {β : Type} (view : Text → β) {needle image : Text} (hne : needle ≠ [])
    (hneedle : Unbroken needle) (himage : Unbroken image)
    (h : ∀ above below, Unbroken above → Unbroken below →
      view (above ++ needle ++ below) = view (above ++ image ++ below)) {t : Text} (ht : Unbroken t) :
    view ((literal needle image).script t).result = view t := by
  let guarded : Text → Option β := fun t => if Unbroken t then some (view t) else none
  have hguarded : guarded ((literal needle image).script t).result = guarded t := by
    refine view_result_literal guarded hne (fun above below => ?_) t
    by_cases hsides : Unbroken above ∧ Unbroken below
    · simp only [guarded, unbroken_append, hsides, hneedle, himage, and_self, if_true]
      rw [h above below hsides.1 hsides.2]
    · have hbroken : ∀ middle, ¬ Unbroken (above ++ middle ++ below) := fun middle hwhole => by
        simp only [unbroken_append] at hwhole
        exact hsides ⟨hwhole.1.1, hwhole.2⟩
      simp only [guarded, hbroken, if_false]
  simp only [guarded, ht, if_true] at hguarded
  split at hguarded
  · exact Option.some.inj hguarded
  · contradiction

end Recognizer

end CanvasExport
