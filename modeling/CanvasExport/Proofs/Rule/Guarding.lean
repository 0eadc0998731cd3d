/-
Module: CanvasExport.Proofs.Rule.Guarding
Layer: Proofs
Purpose: Texts with guards put into them, line breaks of any kind included. A guarded text is the text that was read
  with chains of guards in front of some of its lines, each chain in the reverse order of the gates. A pass of a gate
  guards a text in this sense, and since no line starts within a guard or right behind one, the passes of further
  gates only make the chains longer in front. What a gate reads as a tag stands outside of all guards.
Main exports: LayerGate.nextRegistration?_of_layer?, startsLine_of_layer?, Guarding, Guarding.trans,
  LayerGate.guarding_script, guarding_passes, Script.inserting, Guarding.exists_chains, LayerGate.TagIn,
  Guarding.tagIn, LayerGate.counts_of_swap, idle_of_passes
-/
import CanvasExport.Proofs.Rule.Insertion
import CanvasExport.Proofs.Rule.Pattern

namespace CanvasExport

namespace Rule

/-! ### Where registration lines start -/

theorem head?_of_throughRegistration? {c : Char} {rest line after : Text}
    (h : throughRegistration? (c :: rest) = some (line, after)) : line.head? = some c := by
  have hwhole := append_of_throughRegistration? h
  cases line with
  | nil =>
      rw [throughRegistration?] at h
      split at h
      · simp at h
      · obtain ⟨late, -, heq⟩ := Option.map_eq_some_iff.1 h
        have hnil : registration = [] := (Prod.mk.inj heq).1
        exact absurd hnil (by decide)
  | cons d line => simpa using (List.cons.inj hwhole).1

/-- A registration line that is found starts where a line starts. -/
def Registration.AtStart (before : Char) (found : Registration) : Prop :=
  ∃ c rest, found.line = c :: rest ∧ startsLine (some (lastOr before found.gap)) (some c) = true

theorem Registration.atStart_of_here? {before c : Char} {rest : Text} {found : Registration}
    (hstart : startsLine (some before) (some c) = true) (h : Registration.here? (c :: rest) = some found) :
    found.AtStart before := by
  obtain ⟨⟨line, after⟩, hthrough, rfl⟩ := Option.map_eq_some_iff.1 h
  obtain ⟨tail, hline⟩ := List.head?_eq_some_iff.1 (head?_of_throughRegistration? hthrough)
  exact ⟨c, tail, hline, hstart⟩

theorem Registration.atStart_behind {before c : Char} {found : Registration} (h : found.AtStart c) :
    (found.behind c).AtStart before := by
  obtain ⟨d, rest, hline, hstart⟩ := h
  refine ⟨d, rest, hline, ?_⟩
  rwa [Registration.behind, lastOr_cons]

theorem atStart_of_nextRegistration? {before : Char} {t : Text} {found : Registration}
    (h : nextRegistration? before t = some found) : found.AtStart before := by
  induction t generalizing before found with
  | nil => simp [nextRegistration?] at h
  | cons c rest ih =>
      rw [nextRegistration?] at h
      split at h
      · rename_i here hhere
        obtain rfl : here = found := by simpa using h
        split at hhere
        · rename_i hstart
          exact Registration.atStart_of_here? hstart hhere
        · contradiction
      · obtain ⟨later, hlater, rfl⟩ := Option.map_eq_some_iff.1 h
        exact Registration.atStart_behind (ih hlater)

/-- The line of an avatar's layer is the nearest one behind the suffix. -/
theorem nextRegistration?_of_avatarLayer? {before : Char} {t : Text} {layer : TaggedLayer}
    (h : avatarLayer? before t = some layer) :
    nextRegistration? (lastOr before layer.suffix) layer.registered.whole = some layer.registered := by
  induction t generalizing before layer with
  | nil => contradiction
  | cons c rest ih =>
      rw [avatarLayer?_cons, Option.or_eq_some_iff] at h
      rcases h with hlonger | ⟨-, hempty⟩
      · split at hlonger
        · contradiction
        · obtain ⟨later, hlater, rfl⟩ := Option.map_eq_some_iff.1 hlonger
          rw [lastOr_cons]
          exact ih hlater
      · obtain ⟨found, hfound, rfl⟩ := Option.map_eq_some_iff.1 hempty
        rw [whole_of_nextRegistration? hfound]
        exact hfound

/-- The line of a layer is the nearest one behind the suffix of its tag. -/
theorem LayerGate.nextRegistration?_of_layer? {gate : LayerGate} {t : Text} {layer : TaggedLayer}
    (h : gate.layer? t = some layer) :
    nextRegistration? (lastOr ' ' (gate.tag ++ layer.suffix)) layer.registered.whole = some layer.registered := by
  obtain ⟨rest, hstrip, hlayer⟩ := Option.bind_eq_some_iff.1 h
  have hvariant : variantLayer? (lastOr ' ' gate.tag) rest = some layer →
      nextRegistration? (lastOr (lastOr ' ' gate.tag) layer.suffix) layer.registered.whole
        = some layer.registered := by
    intro hvariant
    simp only [variantLayer?] at hvariant
    split at hvariant
    · contradiction
    · obtain ⟨found, hnext, rfl⟩ := Option.map_eq_some_iff.1 hvariant
      rw [whole_of_nextRegistration? hnext]
      exact hnext
  rw [lastOr_append]
  cases hkind : gate.kind with
  | avatar =>
      simp only [hkind] at hlayer
      exact nextRegistration?_of_avatarLayer? hlayer
  | hair | eyes =>
      simp only [hkind] at hlayer
      exact hvariant hlayer

/-- The registration line of a tagged layer starts where a line starts. -/
theorem startsLine_of_layer? {gate : LayerGate} {t : Text} {layer : TaggedLayer} (h : gate.layer? t = some layer) :
    ∃ c rest, layer.registered.line = c :: rest
      ∧ startsLine (some (lastOr ' ' (gate.tag ++ layer.suffix ++ layer.registered.gap))) (some c) = true := by
  rw [lastOr_append]
  exact atStart_of_nextRegistration? (LayerGate.nextRegistration?_of_layer? h)

/-! ### Guarded texts -/

/-- Guards in the order in which they stand, each with its gate. -/
abbrev Guards := List (LayerGate × Text)

/-- The text of guards in a row. -/
def Guards.text (guards : Guards) : Text :=
  guards.flatMap Prod.snd

/-- The second text is the first one with `count` guards put in front of its lines. In front of a line the guards
    stand in the reverse order of the gates, at most one of each. `before` is the character in front of both texts. -/
inductive Guarding (selection : Text) (gates : List LayerGate) : (before : Option Char) → Text → Text → Nat → Prop
  | nil (before : Option Char) : Guarding selection gates before [] [] 0
  | cons {before : Option Char} {c : Char} {t guarded : Text} {count : Nat} (chain : Guards)
      (hstart : chain ≠ [] → startsLine before (some c) = true)
      (hgates : (chain.map Prod.fst).Sublist gates.reverse)
      (hguards : ∀ guard ∈ chain, guard.1.IsGuard selection guard.2)
      (hrest : Guarding selection gates (some c) t guarded count) :
      Guarding selection gates before (c :: t) (chain.text ++ c :: guarded) (chain.length + count)

theorem Guards.writtenIn_text {selection : Text} (hselection : WrittenIn argumentChar selection) {chain : Guards}
    (h : ∀ guard ∈ chain, guard.1.IsGuard selection guard.2) : WrittenIn guardChar chain.text := by
  intro c hmem
  obtain ⟨guard, hguard, hc⟩ := List.mem_flatMap.1 hmem
  exact (guard.1.isGuardText_of_isGuard hselection (h guard hguard)).written c hc

theorem Guards.text_append (chain other : Guards) : Guards.text (chain ++ other) = chain.text ++ other.text :=
  List.flatMap_append

namespace Guarding

variable {selection : Text} {gates : List LayerGate} {before : Option Char} {t guarded : Text} {count : Nat}

theorem kept (before : Option Char) {c : Char} (h : Guarding selection gates (some c) t guarded count) :
    Guarding selection gates before (c :: t) (c :: guarded) count := by
  have hnone : ([] : Guards) ≠ [] → startsLine before (some c) = true := fun hne => absurd rfl hne
  have hcons := cons [] hnone (List.nil_sublist _) (by simp) h
  simpa [Guards.text] using hcons

/-- What is kept in front of a guarded text. -/
theorem append_left (above : Text) (h : Guarding selection gates (above.getLast?.or before) t guarded count) :
    Guarding selection gates before (above ++ t) (above ++ guarded) count := by
  induction above generalizing before with
  | nil => exact h
  | cons c above ih =>
      refine kept before (ih ?_)
      rw [List.getLast?_cons] at h
      cases hlast : above.getLast? <;> simpa [hlast] using h

theorem refl (before : Option Char) (t : Text) : Guarding selection gates before t t 0 := by
  induction t generalizing before with
  | nil => exact nil before
  | cons c t ih => exact kept before (ih _)

/-! ### Within lines -/

/-- Within a line there is no guard. -/
theorem cons_of_within (hbefore : WithinLine before) {c : Char}
    (h : Guarding selection gates before (c :: t) guarded count) :
    ∃ rest, guarded = c :: rest ∧ Guarding selection gates (some c) t rest count := by
  cases h with
  | @cons _ _ _ rest later chain hstart hgates hguards hrest =>
      have hnil : chain = [] := by
        by_contra hne
        have hnot := startsLine_of_withinLine hbefore (some c)
        rw [hstart hne] at hnot
        contradiction
      subst hnil
      exact ⟨rest, rfl, by simpa using hrest⟩

theorem append_of_within (hbefore : WithinLine before) {above : Text} (habove : Unbroken above)
    (h : Guarding selection gates before (above ++ t) guarded count) :
    ∃ last rest, WithinLine last ∧ guarded = above ++ rest ∧ Guarding selection gates last t rest count := by
  induction above generalizing before guarded with
  | nil => exact ⟨before, guarded, hbefore, rfl, h⟩
  | cons c above ih =>
      rw [unbroken_cons] at habove
      obtain ⟨written, rfl, hwritten⟩ := cons_of_within hbefore h
      obtain ⟨last, rest, hlast, rfl, hrest⟩ := ih ⟨c, rfl, habove.1⟩ habove.2 hwritten
      exact ⟨last, rest, hlast, rfl, hrest⟩

/-! ### Pass after pass -/

/-- Guarding a text at whose head guards stand already puts guards in front of those, and none behind them. -/
theorem behind_guards {head : Text} (hhead : Unbroken head) {c : Char}
    (h : Guarding selection gates before (head ++ c :: t) guarded count) :
    ∃ (chain : Guards) (rest : Text) (later : Nat), guarded = chain.text ++ head ++ c :: rest
      ∧ count = chain.length + later ∧ Guarding selection gates (some c) t rest later
      ∧ (chain.map Prod.fst).Sublist gates.reverse ∧ (∀ guard ∈ chain, guard.1.IsGuard selection guard.2)
      ∧ (head = [] → chain ≠ [] → startsLine before (some c) = true) := by
  cases head with
  | nil =>
      cases h with
      | cons chain hstart hgates hguards hrest =>
          exact ⟨chain, _, _, by simp, rfl, hrest, hgates, hguards, fun _ => hstart⟩
  | cons d head =>
      rw [unbroken_cons] at hhead
      cases h with
      | cons chain hstart hgates hguards hhere =>
          obtain ⟨last, written, hlast, rfl, hbehind⟩ := append_of_within ⟨d, rfl, hhead.1⟩ hhead.2 hhere
          obtain ⟨rest, rfl, hrest⟩ := cons_of_within hlast hbehind
          exact ⟨chain, rest, _, by simp, rfl, hrest, hgates, hguards, fun hnil => by contradiction⟩

/-- Guarding a guarded text by one more gate guards the first text by all of them. -/
theorem trans (hselection : WrittenIn argumentChar selection) {gate : LayerGate} {twice : Text} {more : Nat}
    (h : Guarding selection gates before t guarded count)
    (hpass : Guarding selection [gate] before guarded twice more) :
    Guarding selection (gates ++ [gate]) before t twice (count + more) := by
  induction h generalizing twice more with
  | nil before =>
      cases hpass with
      | nil => exact .nil before
  | @cons before c t guarded count chain hstart hgates hguards _ ih =>
      have hchain : Unbroken chain.text := (Guards.writtenIn_text hselection hguards).unbroken (by decide) (by decide)
      obtain ⟨front, rest, later, rfl, rfl, hrest, hgate, hfront, hbare⟩ := behind_guards hchain hpass
      have hboth : front ++ chain ≠ [] → startsLine before (some c) = true := by
        intro hne
        by_cases hnil : chain = []
        · exact hbare (by rw [hnil]; rfl) (by simpa [hnil] using hne)
        · exact hstart hnil
      have hgates : ((front ++ chain).map Prod.fst).Sublist (gates ++ [gate]).reverse := by
        rw [List.map_append, List.reverse_append]
        exact hgate.append hgates
      have hguards : ∀ guard ∈ front ++ chain, guard.1.IsGuard selection guard.2 :=
        List.forall_mem_append.2 ⟨hfront, hguards⟩
      have hall := cons (front ++ chain) hboth hgates hguards (ih hrest)
      have hcount : (front ++ chain).length + (count + later) = chain.length + count + (front.length + later) := by
        rw [List.length_append]
        omega
      rwa [Guards.text_append, hcount] at hall

end Guarding

/-! ### Passes of gates -/

/-- One guard in front of a line. -/
theorem Guarding.guard {selection : Text} {gate : LayerGate} {before : Option Char} {c : Char} {t guarded new : Text}
    {count : Nat} (hstart : startsLine before (some c) = true) (hnew : gate.IsGuard selection new)
    (h : Guarding selection [gate] (some c) t guarded count) :
    Guarding selection [gate] before (c :: t) (new ++ c :: guarded) (count + 1) := by
  have hone : ∀ guard ∈ [(gate, new)], guard.1.IsGuard selection guard.2 := by simpa using hnew
  have hcons := cons [(gate, new)] (fun _ => hstart) (List.Sublist.refl _) hone h
  rw [List.length_singleton, Nat.add_comm] at hcons
  simpa [Guards.text] using hcons

/-- A pass of a gate guards the text, and counts each guard that it puts in. -/
theorem LayerGate.guarding_script (gate : LayerGate) (selection : Text) (before : Option Char) (t : Text) :
    ∃ count, count ≤ ((gate.recognizer selection).script t).swaps
      ∧ Guarding selection [gate] before t ((gate.recognizer selection).script t).result count := by
  refine gate.layer_induction selection
    (motive := fun t s => ∀ before, ∃ count, count ≤ s.swaps ∧ Guarding selection [gate] before t s.result count)
    (fun before => ⟨0, Nat.le_refl _, .nil before⟩) (fun c rest _ hrest before => ?kept)
    (fun layer _ _ hrest before => ?accessory) (fun layer hlayer _ hrest before => ?guarded) t before
  case kept =>
    obtain ⟨count, hcount, hguarding⟩ := hrest (some c)
    refine ⟨count, ?_, ?_⟩
    · simpa using hcount
    · simpa [Edit.result] using hguarding.kept before
  case accessory =>
    obtain ⟨count, hcount, hguarding⟩ := hrest ((gate.tag ++ layer.suffix).getLast?.or before)
    refine ⟨count, by simpa using hcount, ?_⟩
    simpa [TaggedLayer.whole, Edit.result] using hguarding.append_left (gate.tag ++ layer.suffix)
  case guarded =>
    obtain ⟨c, tail, hline, hstart⟩ := startsLine_of_layer? hlayer
    obtain ⟨count, hcount, hguarding⟩ := hrest (tail.getLast?.or (some c))
    have hbehind := hguarding.append_left tail
    rw [List.append_assoc, ← gate.getLast?_tag_append_or before, ← List.append_assoc] at hstart
    rcases gate.inserted_cases selection layer with hinserted | ⟨hinserted, -⟩
    · have hguard : gate.IsGuard selection (gate.guard selection layer.suffix) :=
        ⟨layer.suffix, gate.variant_of_layer? hlayer, rfl⟩
      refine ⟨count + 1, by simp; omega, ?_⟩
      simpa [TaggedLayer.whole, Registration.whole, Edit.result, hline, hinserted]
        using (hbehind.guard hstart hguard).append_left (gate.tag ++ layer.suffix ++ layer.registered.gap)
    · refine ⟨count, by simp [Script.swaps_keep]; omega, ?_⟩
      simpa [TaggedLayer.whole, Registration.whole, Edit.result, hline, hinserted]
        using (hbehind.kept _).append_left (gate.tag ++ layer.suffix ++ layer.registered.gap)

/-- A replacement in a pass stands for a tagged layer of the text. In what is written the line of the layer starts with
    the layer's guard, be it put in or have stood there; `below` is the script behind the replacement. -/
def LayerGate.Counts (gate : LayerGate) (selection t old new : Text) (below : Script) : Prop :=
  ∃ there layer, there <:+ t ∧ gate.layer? there = some layer ∧ old = []
    ∧ (new = gate.guard selection layer.suffix
      ∨ new = [] ∧ gate.guard selection layer.suffix <+: below.result)

theorem LayerGate.Counts.mono {gate : LayerGate} {selection t t' old new : Text} {below : Script}
    (h : gate.Counts selection t old new below) (ht : t <:+ t') : gate.Counts selection t' old new below := by
  obtain ⟨there, layer, hthere, hlayer⟩ := h
  exact ⟨there, layer, hthere.trans ht, hlayer⟩

/-- Every replacement of a pass is one that stands for a tagged layer and leaves it guarded. -/
def LayerGate.GuardsCounted (gate : LayerGate) (selection : Text) (script : Script) : Prop :=
  ∀ above old new below, script = above ++ .swap old new :: below →
    gate.Counts selection script.source old new below

/-- A pass counts tagged layers only. -/
theorem LayerGate.counts_of_swap {gate : LayerGate} {selection t old new : Text} {above below : Script}
    (h : (gate.recognizer selection).script t = above ++ .swap old new :: below) :
    gate.Counts selection t old new below := by
  revert h
  refine gate.layer_induction selection
    (motive := fun t s => ∀ above, s = above ++ .swap old new :: below → gate.Counts selection t old new below)
    (fun above hsplit => by simp at hsplit) (fun c rest _ hrest above hsplit => ?kept)
    (fun layer _ _ hrest above hsplit => ?accessory) (fun layer hlayer _ hrest above hsplit => ?guarded) t above
  case kept =>
    cases above with
    | nil => simp at hsplit
    | cons e above => exact (hrest above (List.cons.inj hsplit).2).mono (List.suffix_cons _ _)
  case accessory =>
    -- What is kept is no replacement, so that stands behind it.
    cases above with
    | nil => simp at hsplit
    | cons e above =>
        have hlater := hrest above (List.cons.inj hsplit).2
        refine hlater.mono ((List.suffix_append layer.suffix _).trans (List.suffix_append _ _))
  case guarded =>
    rcases above with _ | ⟨lead, _ | ⟨here, _ | ⟨line, above⟩⟩⟩
    · simp at hsplit
    · simp only [List.cons_append, List.nil_append, List.cons.injEq, Edit.swap.injEq] at hsplit
      obtain ⟨-, ⟨rfl, rfl⟩, rfl⟩ := hsplit
      refine ⟨_, layer, List.suffix_rfl, hlayer, rfl, ?_⟩
      rcases gate.inserted_cases selection layer with hguard | ⟨hnone, hstarts⟩
      · exact .inl hguard
      · exact .inr ⟨hnone, by simpa [Edit.result] using hstarts.trans (List.prefix_append _ _)⟩
    · simp at hsplit
    · simp only [List.cons_append, List.cons.injEq] at hsplit
      have hlater := hrest above hsplit.2.2.2
      refine hlater.mono ?_
      simp only [TaggedLayer.whole, Registration.whole, ← List.append_assoc]
      exact List.suffix_append _ _

theorem forall₂_guardsCounted (selection : Text) (gates : List LayerGate) (t : Text) :
    List.Forall₂ (fun gate script => gate.GuardsCounted selection script) gates
      (Rewrite.scriptsOf (gates.map fun gate => (gate.recognizer selection).script) t) := by
  induction gates generalizing t with
  | nil => exact .nil
  | cons gate gates ih =>
      refine .cons (fun above old new below hsplit => ?_) (ih _)
      rw [Recognizer.source_script (gate.recognizer_faithful selection)]
      exact LayerGate.counts_of_swap hsplit

/-- Nothing in the text asks for a guard of the gate: it finds layers only at accessories and behind their tags. -/
def LayerGate.Idle (gate : LayerGate) (t : Text) : Prop :=
  ∀ there layer, there <:+ t → gate.layer? there = some layer → gate.kind = .avatar
    ∧ ∃ start accessory, there <:+ start ∧ start <:+ t ∧ gate.layer? start = some accessory
      ∧ isAccessory accessory.suffix = true

/-- A pass that counts nothing had nothing to guard. -/
theorem LayerGate.idle_of_swaps {gate : LayerGate} {selection t : Text}
    (h : ((gate.recognizer selection).script t).swaps = 0) : gate.Idle t := by
  revert h
  refine gate.layer_induction selection (motive := fun t s => s.swaps = 0 → gate.Idle t)
    (fun _ there layer hthere hlayer => ?nil) (fun c rest hnone hrest hzero there layer hthere hlayer => ?kept)
    (fun first hfirst haccessory _ _ there layer hthere _ => ?accessory) (fun layer _ _ _ hzero => ?guarded) t
  case nil =>
    rw [List.suffix_nil.1 hthere] at hlayer
    exact absurd (append_whole_of_layer? hlayer) (by simp [gate.tag_ne_nil])
  case kept =>
    have hlater : gate.Idle rest := hrest (by simpa using hzero)
    rcases List.suffix_cons_iff.1 hthere with rfl | hthere
    · rw [hnone] at hlayer
      contradiction
    · obtain ⟨hkind, start, accessory, hstart, hrest, hfound⟩ := hlater there layer hthere hlayer
      exact ⟨hkind, start, accessory, hstart, hrest.trans (List.suffix_cons _ _), hfound⟩
  case accessory =>
    have hkind := (Bool.and_eq_true _ _).mp haccessory
    exact ⟨by simpa using hkind.1, _, first, hthere, List.suffix_rfl, hfirst, hkind.2⟩
  case guarded => simp at hzero

/-- Passes that count nothing leave the text as it is, since there is nothing to guard in it. -/
theorem idle_of_passes {selection t : Text} {gates : List LayerGate}
    (h : (Rewrite.passes t (gates.map fun gate => (gate.recognizer selection).script)).replacements = 0) :
    (Rewrite.passes t (gates.map fun gate => (gate.recognizer selection).script)).text = t
      ∧ ∀ gate ∈ gates, gate.Idle t := by
  induction gates with
  | nil => exact ⟨rfl, by simp⟩
  | cons gate gates ih =>
      rw [List.map_cons, Rewrite.passes_cons] at h ⊢
      obtain ⟨hfirst, hrest⟩ := Nat.add_eq_zero_iff.1 h
      have hsame : ((gate.recognizer selection).script t).result = t := by
        rw [Script.result_of_swaps_eq_zero hfirst, Recognizer.source_script (gate.recognizer_faithful selection)]
      rw [hsame] at hrest
      obtain ⟨htext, hidle⟩ := ih hrest
      rw [hsame]
      exact ⟨htext, List.forall_mem_cons.2 ⟨LayerGate.idle_of_swaps hfirst, hidle⟩⟩

/-- Passes of further gates over a guarded text guard the text by all gates. -/
theorem guarding_passes {selection : Text} (hselection : WrittenIn argumentChar selection) (gates : List LayerGate)
    {done : List LayerGate} {before : Option Char} {t guarded : Text} {count : Nat}
    (h : Guarding selection done before t guarded count) :
    let passes := Rewrite.passes guarded (gates.map fun gate => (gate.recognizer selection).script)
    ∃ more, more ≤ passes.replacements ∧ Guarding selection (done ++ gates) before t passes.text (count + more) := by
  induction gates generalizing done guarded count with
  | nil => exact ⟨0, Nat.le_refl _, by simpa [Rewrite.passes] using h⟩
  | cons gate gates ih =>
      obtain ⟨first, hfirst, hpass⟩ := gate.guarding_script selection before guarded
      obtain ⟨more, hmore, hrest⟩ := ih (h.trans hselection hpass)
      rw [List.map_cons, Rewrite.passes_cons]
      refine ⟨first + more, Nat.add_le_add hfirst hmore, ?_⟩
      simpa [Nat.add_assoc] using hrest

end Rule

/-! ### Chains by their places -/

/-- The script that keeps every character of a text and puts a text of its own in front of each, given by its place. -/
def Script.inserting : (inserted : Nat → Text) → Text → Script
  | _, [] => []
  | inserted, c :: rest => .swap [] (inserted 0) :: .keep [c] :: inserting (fun place => inserted (place + 1)) rest

theorem Script.source_inserting (inserted : Nat → Text) (t : Text) : (Script.inserting inserted t).source = t := by
  induction t generalizing inserted with
  | nil => rfl
  | cons c rest ih => simp [inserting, Edit.source, ih]

/-- A line starts at the place: at the start of the text, behind a line feed, or behind a carriage return that is not
    followed by one. -/
def StartsLineAt (t : Text) : (place : Nat) → Prop
  | 0 => True
  | place + 1 => t[place]? = some '\n' ∨ t[place]? = some '\r' ∧ t[place + 1]? ≠ some '\n'

namespace Rule

/-- The character in front of a place. -/
def inFront (before : Option Char) (t : Text) : (place : Nat) → Option Char
  | 0 => before
  | place + 1 => t[place]?

theorem startsLineAt_of_inFront {t : Text} {place : Nat} (hplace : place ≤ t.length)
    (h : startsLine (inFront none t place) t[place]? = true) : StartsLineAt t place := by
  cases place with
  | zero => trivial
  | succ place =>
      obtain ⟨c, hc⟩ : ∃ c, t[place]? = some c := ⟨t[place], List.getElem?_eq_getElem hplace⟩
      rw [inFront, hc] at h
      by_cases hlf : c = '\n'
      · exact .inl (hc.trans (congrArg some hlf))
      · by_cases hcr : c = '\r'
        · subst hcr
          exact .inr ⟨hc, by simpa [startsLine] using h⟩
        · have hwithin : endsLine (some c) = false := by simp [endsLine, hlf, hcr]
          rw [startsLine_of_withinLine ⟨c, rfl, hwithin⟩] at h
          contradiction

/-- The guards of a guarded text by the places at which they are put into it. -/
theorem Guarding.exists_chains {selection : Text} {gates : List LayerGate} {before : Option Char} {t guarded : Text}
    {count : Nat} (h : Guarding selection gates before t guarded count) :
    ∃ chains : Nat → Guards, (Script.inserting (fun place => (chains place).text) t).result = guarded
      ∧ ((List.range t.length).flatMap chains).length = count
      ∧ ∀ place, (chains place ≠ [] → place < t.length ∧ startsLine (inFront before t place) t[place]? = true)
        ∧ ((chains place).map Prod.fst).Sublist gates.reverse
        ∧ ∀ guard ∈ chains place, guard.1.IsGuard selection guard.2 := by
  induction h with
  | nil => exact ⟨fun _ => [], rfl, rfl, by simp⟩
  | @cons before c t guarded count chain hstart hgates hguards _ ih =>
      obtain ⟨chains, hresult, hcount, hchains⟩ := ih
      refine ⟨fun | 0 => chain | place + 1 => chains place, ?_, ?_, fun place => ?_⟩
      · simp [Script.inserting, Edit.result, hresult]
      · rw [List.length_cons, List.range_succ_eq_map, List.flatMap_cons, List.flatMap_map, List.length_append, hcount]
      · cases place with
        | zero => exact ⟨fun hne => ⟨Nat.zero_lt_succ _, hstart hne⟩, hgates, hguards⟩
        | succ place =>
            obtain ⟨hline, hplace⟩ := hchains place
            refine ⟨fun hne => ?_, hplace⟩
            obtain ⟨hlt, hstart⟩ := hline hne
            refine ⟨Nat.succ_lt_succ hlt, ?_⟩
            cases place with
            | zero => exact hstart
            | succ place => exact hstart

/-! ### The tags that are read -/

/-- A tag of the gate with exactly these digits stands in the text. -/
def LayerGate.TagIn (gate : LayerGate) (digits text : Text) : Prop :=
  digits ≠ [] ∧ WrittenIn Char.isDigit digits
    ∧ ∃ above below, text = above ++ (gate.tag ++ digits) ++ below ∧ Ends Char.isDigit below

/-- The suffix of a hair or eyes tag is all of its digits. -/
theorem LayerGate.tagIn_of_layer? {gate : LayerGate} {t there : Text} {layer : TaggedLayer} (hthere : there <:+ t)
    (h : gate.layer? there = some layer) (hkind : gate.kind ≠ .avatar) : gate.TagIn layer.suffix t := by
  obtain ⟨hne, hdigits⟩ := gate.variant_of_layer? h hkind
  obtain ⟨above, rfl⟩ := hthere
  obtain ⟨rest, hstrip, hlayer⟩ := Option.bind_eq_some_iff.1 h
  have hsuffix : layer.suffix = rest.takeWhile Char.isDigit := by
    cases hgate : gate.kind with
    | avatar => exact absurd hgate hkind
    | hair | eyes =>
        simp only [hgate, variantLayer?] at hlayer
        split at hlayer
        · contradiction
        · obtain ⟨found, -, rfl⟩ := Option.map_eq_some_iff.1 hlayer
          rfl
  refine ⟨hne, hdigits, above, rest.dropWhile Char.isDigit, ?_, ends_dropWhile rest⟩
  rw [hsuffix, Text.strip?_eq_some_iff.1 hstrip]
  simp only [List.append_assoc, List.takeWhile_append_dropWhile]

namespace Guarding

variable {selection : Text} {gates : List LayerGate} {before : Option Char} {t guarded : Text} {count : Nat}

/-- Within a line the guarded text is the text that was read. -/
theorem of_within (hbefore : WithinLine before) {needle below : Text} (hneedle : Unbroken needle)
    (h : Guarding selection gates before t (needle ++ below) count) :
    ∃ rest, t = needle ++ rest ∧ rest.head? = below.head? := by
  have hhead : ∀ {before : Option Char} {t guarded : Text} {count : Nat}, WithinLine before →
      Guarding selection gates before t guarded count → t.head? = guarded.head? := by
    intro before t guarded count hbefore h
    cases h with
    | nil => rfl
    | cons chain hstart hgates hguards hrest =>
        obtain ⟨rest, heq, -⟩ := cons_of_within hbefore (.cons chain hstart hgates hguards hrest)
        rw [heq]
        rfl
  induction needle generalizing before t count with
  | nil => exact ⟨t, rfl, hhead hbefore h⟩
  | cons c needle ih =>
      rw [unbroken_cons] at hneedle
      cases t with
      | nil => cases h
      | cons d t =>
          obtain ⟨written, heq, hrest⟩ := cons_of_within hbefore h
          obtain ⟨rfl, rfl⟩ := List.cons.inj heq
          obtain ⟨rest, rfl, hends⟩ := ih ⟨c, rfl, hneedle.1⟩ hneedle.2 hrest
          exact ⟨rest, rfl, hends⟩

/-- What stands in a guarded text and starts with a slash starts outside of the guards. -/
theorem exists_of_slash (hselection : WrittenIn argumentChar selection) {above below : Text}
    (h : Guarding selection gates before t (above ++ '/' :: below) count) :
    ∃ front rest later, t = front ++ '/' :: rest ∧ Guarding selection gates (some '/') rest below later := by
  generalize hguarded : above ++ '/' :: below = guarded at h
  induction h generalizing above with
  | nil => simp at hguarded
  | @cons before c t guarded count chain hstart hgates hguards hrest ih =>
      have hslash : '/' ∉ chain.text := (Guards.writtenIn_text hselection hguards).not_mem (by decide)
      rcases List.append_eq_append_iff.1 hguarded with ⟨gap, habove, hbelow⟩ | ⟨gap, habove, hbelow⟩
      · cases gap with
        | nil =>
            obtain ⟨rfl, rfl⟩ := List.cons.inj hbelow
            exact ⟨[], t, count, rfl, hrest⟩
        | cons d gap =>
            obtain ⟨rfl, -⟩ := List.cons.inj hbelow
            exact absurd (habove ▸ List.mem_append_right _ List.mem_cons_self) hslash
      · cases gap with
        | nil =>
            obtain ⟨rfl, rfl⟩ := List.cons.inj hbelow
            exact ⟨[], t, count, rfl, hrest⟩
        | cons d gap =>
            obtain ⟨rfl, hlater⟩ := List.cons.inj hbelow
            obtain ⟨front, rest, later, rfl, hbehind⟩ := ih hlater.symm
            exact ⟨c :: front, rest, later, rfl, hbehind⟩

/-- A tag in a guarded text stands in the text that was read. -/
theorem tagIn (hselection : WrittenIn argumentChar selection) {gate : LayerGate} {digits : Text}
    (h : Guarding selection gates before t guarded count) (htag : gate.TagIn digits guarded) :
    gate.TagIn digits t := by
  obtain ⟨hne, hdigits, above, below, rfl, hends⟩ := htag
  obtain ⟨tail, htail⟩ : ∃ tail, gate.tag = '/' :: tail := ⟨_, rfl⟩
  have hunbroken : Unbroken (tail ++ digits) := by
    have htag := gate.unbroken_tag
    rw [htail, unbroken_cons] at htag
    exact unbroken_append.2 ⟨htag.2, hdigits.unbroken (by decide) (by decide)⟩
  have hslash : above ++ (gate.tag ++ digits) ++ below = above ++ '/' :: (tail ++ digits ++ below) := by
    simp [htail]
  rw [hslash] at h
  obtain ⟨front, rest, later, rfl, hrest⟩ := h.exists_of_slash hselection
  obtain ⟨behind, rfl, hhead⟩ := hrest.of_within ⟨'/', rfl, rfl⟩ hunbroken
  refine ⟨hne, hdigits, front, behind, by simp [htail], ?_⟩
  rwa [Ends, hhead]

end Guarding

end Rule

end CanvasExport
