/-
Module: CanvasExport.Proofs.Rule.Gates
Layer: Proofs
Purpose: All gates one after the other. Where no two gates ask for the same line, each line that a gate asks for
  starts with that gate's guard in the end, and then another round over the same lines changes nothing; nor
  does remapping bitmaps or adding lines that say nothing to gates.
Main exports: gatedLines, GuardedBy, forall₂_gatedLines, guardedBy_cases, Settled, Apart, settled_gatedLines,
  gatedLines_of_settled, Settled.remapped, Settled.flatMap
-/
import CanvasExport.Proofs.Rule.Reading
import Mathlib.Data.List.Forall2

namespace CanvasExport.Rule

/-- The contents of lines after one pass for each gate. -/
def gatedLines (selection : Text) (gates : List LayerGate) (contents : List Text) : List Text :=
  gates.foldl (fun contents gate => gate.guardedLines selection none contents) contents

/-! ### What the passes write -/

/-- A line with guards in front of what was read; only registration lines are given any. -/
def GuardedBy (selection : Text) (gates : List LayerGate) (content line : Text) : Prop :=
  ∃ chain, GuardChain selection gates chain ∧ (chain = [] ∨ (throughRegistration? content).isSome)
    ∧ line = chain ++ content

theorem GuardChain.append {selection : Text} {gates : List LayerGate} {s t : Text}
    (hs : GuardChain selection gates s) (ht : GuardChain selection gates t) :
    GuardChain selection gates (s ++ t) := by
  induction hs with
  | nil => exact ht
  | cons hgate hguard _ ih =>
      rw [List.append_assoc]
      exact .cons hgate hguard ih

theorem GuardChain.mono {selection : Text} {gates more : List LayerGate} (hsub : gates ⊆ more) {chain : Text}
    (h : GuardChain selection gates chain) : GuardChain selection more chain := by
  induction h with
  | nil => exact .nil
  | cons hgate hguard _ ih => exact .cons (hsub hgate) hguard ih

namespace LayerGate

variable (gate : LayerGate) {selection : Text}

/-- What a gate waits with, if anything, is a guard of its own. -/
def Waits (selection : Text) (waiting : Option Text) : Prop :=
  ∀ guard, waiting = some guard → gate.IsGuard selection guard

theorem waits_none (selection : Text) : gate.Waits selection none := by
  simp [Waits]

theorem waits_next {waiting : Option Text} (h : gate.Waits selection waiting) (content : Text) :
    gate.Waits selection (gate.next selection waiting content) := by
  intro guard hguard
  unfold next at hguard
  split at hguard
  · exact gate.isGuard_of_guardFor? hguard
  · split at hguard
    · exact gate.isGuard_of_guardFor? hguard
    · exact h guard (by simpa using hguard)

/-- What is put in front of a line is nothing or the guard that is waited with, and then the line is a
    registration line. -/
theorem insertion?_cases (waiting : Option Text) (content : Text) :
    (insertion? waiting content).getD [] = []
      ∨ (waiting = some ((insertion? waiting content).getD []) ∧ (throughRegistration? content).isSome) := by
  cases waiting with
  | none => exact .inl rfl
  | some guard =>
      cases hthrough : throughRegistration? content with
      | none => exact .inl (by rw [insertion?_eq_none hthrough]; rfl)
      | some found =>
          rw [insertion?_of_registered guard hthrough]
          cases hhead : guard.isPrefixOf found.1
          · exact .inr ⟨rfl, rfl⟩
          · exact .inl rfl

theorem forall₂_guardedLines {waiting : Option Text} (h : gate.Waits selection waiting) (contents : List Text) :
    List.Forall₂ (GuardedBy selection [gate]) contents (gate.guardedLines selection waiting contents) := by
  induction contents generalizing waiting with
  | nil => exact .nil
  | cons content contents ih =>
      refine .cons ?_ (ih (gate.waits_next h content))
      rcases insertion?_cases waiting content with hnone | ⟨hwaiting, hregistered⟩
      · exact ⟨[], .nil, .inl rfl, by rw [hnone]⟩
      · have hguard := h _ hwaiting
        refine ⟨_, ?_, .inr hregistered, rfl⟩
        simpa using GuardChain.cons (List.mem_singleton_self gate) hguard .nil

end LayerGate

/-- Guards in front of guards are guards. -/
theorem GuardedBy.trans {selection : Text} {gates first second : List LayerGate} (hfirst : first ⊆ gates)
    (hsecond : second ⊆ gates) {content middle line : Text} (h₁ : GuardedBy selection first content middle)
    (h₂ : GuardedBy selection second middle line) : GuardedBy selection gates content line := by
  obtain ⟨inner, hinner, hregistered, rfl⟩ := h₁
  obtain ⟨outer, houter, houter', rfl⟩ := h₂
  refine ⟨outer ++ inner, (houter.mono hsecond).append (hinner.mono hfirst), ?_, by simp⟩
  rcases hregistered with rfl | hregistered
  · simpa using houter'
  · exact .inr hregistered

theorem forall₂_trans {α β γ : Type} {R : α → β → Prop} {S : β → γ → Prop} {T : α → γ → Prop}
    (h : ∀ a b c, R a b → S b c → T a c) {as : List α} {bs : List β} {cs : List γ}
    (hfirst : List.Forall₂ R as bs) (hsecond : List.Forall₂ S bs cs) : List.Forall₂ T as cs := by
  induction hfirst generalizing cs with
  | nil =>
      cases hsecond
      exact .nil
  | cons hhead _ ih =>
      cases hsecond with
      | cons hhead' htail' => exact .cons (h _ _ _ hhead hhead') (ih htail')

theorem mem_of_forall₂ {α β : Type} {R : α → β → Prop} {as : List α} {bs : List β} (h : List.Forall₂ R as bs)
    {b : β} (hmem : b ∈ bs) : ∃ a ∈ as, R a b := by
  induction h with
  | nil => simp at hmem
  | cons hhead _ ih =>
      rcases List.mem_cons.1 hmem with rfl | hmem
      · exact ⟨_, List.mem_cons_self, hhead⟩
      · obtain ⟨a, ha, hrel⟩ := ih hmem
        exact ⟨a, List.mem_cons_of_mem _ ha, hrel⟩

/-- After all passes each line is what it was, with guards in front. -/
theorem forall₂_gatedLines (selection : Text) (gates : List LayerGate) (contents : List Text) :
    List.Forall₂ (GuardedBy selection gates) contents (gatedLines selection gates contents) := by
  induction gates generalizing contents with
  | nil => exact List.forall₂_same.2 fun content _ => ⟨[], .nil, .inl rfl, rfl⟩
  | cons gate gates ih =>
      have hfirst := gate.forall₂_guardedLines (gate.waits_none selection) contents
      have hrest := ih (gate.guardedLines selection none contents)
      refine forall₂_trans (fun content middle line h₁ h₂ => h₁.trans ?_ ?_ h₂) hfirst hrest
      · simp
      · exact List.subset_cons_self _ _

/-! ### Lines behind guards -/

theorem guardedBy_self (selection : Text) (gates : List LayerGate) (content : Text) :
    GuardedBy selection gates content content :=
  ⟨[], .nil, .inl rfl, rfl⟩

section Guarded

variable {selection : Text} {gates : List LayerGate} {content guarded : Text}

theorem suffix_of_guardedBy (h : GuardedBy selection gates content guarded) : content <:+ guarded := by
  obtain ⟨chain, -, -, rfl⟩ := h
  exact List.suffix_append _ _

variable (hselection : WrittenIn argumentChar selection) (h : GuardedBy selection gates content guarded)

include hselection h

/-- A line is left as it is, or it is a registration line and stands behind guards. -/
theorem guardedBy_cases : guarded = content
    ∨ ∃ guard, IsGuardText guard ∧ (throughRegistration? content).isSome ∧ guarded = guard ++ content := by
  obtain ⟨chain, hchain, hregistered, rfl⟩ := h
  rcases hchain.isGuardText hselection with rfl | hguard
  · exact .inl rfl
  · exact .inr ⟨chain, hguard, hregistered.resolve_left hguard.ne_nil, rfl⟩

theorem unbroken_guarded (hcontent : Unbroken content) : Unbroken guarded := by
  rcases guardedBy_cases hselection h with rfl | ⟨guard, hguard, -, rfl⟩
  · exact hcontent
  · exact unbroken_append.2 ⟨hguard.unbroken, hcontent⟩

/-- A line that starts as no guard does, and that no gate asks for, stands behind no guard. -/
theorem guarded_eq_iff {line : Text} {c : Char} (hhead : c ∈ line.head?) (hc : guardChar c = false)
    (hline : throughRegistration? line = none) : guarded = line ↔ content = line := by
  rcases guardedBy_cases hselection h with rfl | ⟨guard, hguard, hregistered, rfl⟩
  · rfl
  · obtain ⟨rest, rfl⟩ : ∃ rest, line = c :: rest := List.head?_eq_some_iff.1 hhead
    apply iff_of_false (ne_of_guard hguard hc rest content)
    rintro rfl
    rw [hline] at hregistered
    contradiction

/-- A needle with a quote is found behind guards or not at all. -/
theorem infix_guarded_iff {early late : Text} (hearly : ')' ∉ early) :
    early ++ '"' :: late <:+: guarded ↔ early ++ '"' :: late <:+: content := by
  rcases guardedBy_cases hselection h with rfl | ⟨guard, hguard, -, rfl⟩
  · rfl
  · exact infix_behind_guard_iff hguard (by decide) hearly content

theorem isConstructorLine_guarded : isConstructorLine guarded = isConstructorLine content := by
  rcases guardedBy_cases hselection h with rfl | ⟨guard, hguard, -, rfl⟩
  · rfl
  · exact isConstructorLine_behind_guard hguard content

end Guarded

/-! ### Settled gates -/

namespace LayerGate

variable (gate other : LayerGate) (selection : Text)

/-- Every line that the gate asks for starts with its guard. -/
def Settled : Option Text → List Text → Prop
  | _, [] => True
  | waiting, content :: rest =>
    (insertion? waiting content).getD [] = [] ∧ Settled (gate.next selection waiting content) rest

/-- No line is asked for by both gates. -/
def Apart : Option Text → Option Text → List Text → Prop
  | _, _, [] => True
  | waiting, waiting', content :: rest =>
    ¬ ((insertion? waiting content).isSome ∧ (insertion? waiting' content).isSome)
      ∧ Apart (gate.next selection waiting content) (other.next selection waiting' content) rest

variable {gate other selection}

theorem guardedLines_of_settled {waiting : Option Text} {contents : List Text}
    (h : gate.Settled selection waiting contents) : gate.guardedLines selection waiting contents = contents := by
  induction contents generalizing waiting with
  | nil => rfl
  | cons content contents ih => rw [guardedLines, h.1, ih h.2, List.nil_append]

/-- A registration line asks for the same behind a guard. -/
theorem next_behind_guard {guard content : Text} (hguard : IsGuardText guard) {found : Text × Text}
    (hthrough : throughRegistration? content = some found) (waiting : Option Text) :
    gate.next selection waiting (guard ++ content) = gate.next selection waiting content := by
  have hslash : '/' ∉ guard := hguard.written.not_mem rfl
  have hbehind := throughRegistration?_append hguard.unbroken hthrough
  cases waiting with
  | none => exact gate.guardFor?_append_of_not_mem selection hslash content
  | some waits => simp only [next, hthrough, hbehind]

/-- Whether a gate asks for a line does not depend on guards in front of it. -/
theorem isSome_insertion?_behind_guard {guard content : Text} (hguard : IsGuardText guard)
    {found : Text × Text} (hthrough : throughRegistration? content = some found) (waiting : Option Text) :
    (insertion? waiting (guard ++ content)).isSome = (insertion? waiting content).isSome := by
  have hbehind := throughRegistration?_append hguard.unbroken hthrough
  cases waiting with
  | none => rfl
  | some waits => rw [insertion?_of_registered waits hthrough, insertion?_of_registered waits hbehind]; rfl

/-- What a gate inserts in front of a line, together with what it leaves for others to read. -/
theorem guarded_cases (hselection : WrittenIn argumentChar selection) {waiting : Option Text}
    (hwaits : gate.Waits selection waiting) (content : Text) :
    (insertion? waiting content).getD [] = []
      ∨ ∃ guard found, IsGuardText guard ∧ throughRegistration? content = some found ∧ waiting = some guard
        ∧ (insertion? waiting content).isSome ∧ (insertion? waiting content).getD [] = guard := by
  rcases insertion?_cases waiting content with hnone | ⟨hwaiting, hregistered⟩
  · exact .inl hnone
  · obtain ⟨found, hthrough⟩ := Option.isSome_iff_exists.1 hregistered
    refine .inr ⟨_, found, gate.isGuardText_of_isGuard hselection (hwaits _ hwaiting), hthrough, hwaiting, ?_, rfl⟩
    rw [hwaiting, insertion?_of_registered _ hthrough]
    rfl

/-- A pass settles its gate. -/
theorem settled_guardedLines (hselection : WrittenIn argumentChar selection) {waiting : Option Text}
    (hwaits : gate.Waits selection waiting) (contents : List Text) :
    gate.Settled selection waiting (gate.guardedLines selection waiting contents) := by
  induction contents generalizing waiting with
  | nil => trivial
  | cons content contents ih =>
      have hrest := ih (gate.waits_next hwaits content)
      rw [guardedLines]
      rcases guarded_cases hselection hwaits content with hnone | ⟨guard, found, hguard, hthrough, rfl, -, hsome⟩
      · rw [hnone, List.nil_append]
        exact ⟨hnone, hrest⟩
      · have hbehind := throughRegistration?_append hguard.unbroken hthrough
        rw [hsome]
        refine ⟨?_, ?_⟩
        · rw [insertion?_of_registered guard hbehind, if_pos (List.isPrefixOf_iff_prefix.2 (List.prefix_append _ _))]
          rfl
        · rw [next_behind_guard hguard hthrough]
          exact hrest

/-- A pass of another gate that asks for other lines leaves a gate settled. -/
theorem Settled.guardedLines (hselection : WrittenIn argumentChar selection) {waiting waiting' : Option Text}
    (hwaits : other.Waits selection waiting') {contents : List Text} (h : gate.Settled selection waiting contents)
    (hapart : gate.Apart other selection waiting waiting' contents) :
    gate.Settled selection waiting (other.guardedLines selection waiting' contents) := by
  induction contents generalizing waiting waiting' with
  | nil => trivial
  | cons content contents ih =>
      have hrest := ih (other.waits_next hwaits content) h.2 hapart.2
      rw [LayerGate.guardedLines]
      rcases guarded_cases hselection hwaits content with
        hnone | ⟨guard, found, hguard, hthrough, rfl, hasked, hsome⟩
      · rw [hnone, List.nil_append]
        exact ⟨h.1, hrest⟩
      · rw [hsome]
        refine ⟨?_, ?_⟩
        · have hother : (insertion? waiting (guard ++ content)).isSome = false := by
            rw [isSome_insertion?_behind_guard hguard hthrough]
            simpa [hasked] using hapart.1
          rw [Option.isSome_eq_false_iff, Option.isNone_iff_eq_none] at hother
          rw [hother]
          rfl
        · rw [next_behind_guard hguard hthrough]
          exact hrest

end LayerGate

/-- A guarded line asks for what it asked for without guards. -/
theorem GuardedBy.asks {selection : Text} (hselection : WrittenIn argumentChar selection) {gates : List LayerGate}
    {content line : Text} (h : GuardedBy selection gates content line) (gate : LayerGate) (waiting : Option Text) :
    (insertion? waiting line).isSome = (insertion? waiting content).isSome
      ∧ gate.next selection waiting line = gate.next selection waiting content := by
  rcases guardedBy_cases hselection h with rfl | ⟨guard, hguard, hregistered, rfl⟩
  · exact ⟨rfl, rfl⟩
  · obtain ⟨found, hthrough⟩ := Option.isSome_iff_exists.1 hregistered
    exact ⟨LayerGate.isSome_insertion?_behind_guard hguard hthrough waiting,
      LayerGate.next_behind_guard hguard hthrough waiting⟩

namespace LayerGate

variable {gate other : LayerGate} {selection : Text}

section Guarded

variable {gates : List LayerGate} {contents lines : List Text} (hselection : WrittenIn argumentChar selection)
  (h : List.Forall₂ (GuardedBy selection gates) contents lines)

include hselection h

/-- Guards do not change what a gate counts. -/
theorem guardCount_guarded (gate : LayerGate) (waiting : Option Text) :
    gate.guardCount selection waiting lines = gate.guardCount selection waiting contents := by
  induction h generalizing waiting with
  | nil => rfl
  | cons hline _ ih =>
      obtain ⟨hasked, hnext⟩ := hline.asks hselection gate waiting
      rw [guardCount, guardCount, hasked, hnext, ih]

/-- Nor do they change whether two gates ask for the same line. -/
theorem apart_guarded_iff {waiting waiting' : Option Text} :
    gate.Apart other selection waiting waiting' lines ↔ gate.Apart other selection waiting waiting' contents := by
  induction h generalizing waiting waiting' with
  | nil => rfl
  | cons hline _ ih =>
      obtain ⟨hasked, hnext⟩ := hline.asks hselection gate waiting
      obtain ⟨hasked', hnext'⟩ := hline.asks hselection other waiting'
      rw [Apart, Apart, hasked, hasked', hnext, hnext', ih]

end Guarded

/-- Gates that ask for different lines do so after a pass of any gate. -/
theorem Apart.guardedLines {third : LayerGate} (hselection : WrittenIn argumentChar selection)
    {waiting waiting' waiting'' : Option Text} (hwaits : third.Waits selection waiting'') {contents : List Text}
    (h : gate.Apart other selection waiting waiting' contents) :
    gate.Apart other selection waiting waiting' (third.guardedLines selection waiting'' contents) :=
  (apart_guarded_iff hselection (third.forall₂_guardedLines hwaits contents)).2 h

end LayerGate

/-- Where no two gates ask for the same line, every gate is settled after all passes. -/
theorem settled_gatedLines {selection : Text} (hselection : WrittenIn argumentChar selection)
    {gates : List LayerGate} {contents : List Text}
    (hapart : ∀ g ∈ gates, ∀ g' ∈ gates, g ≠ g' → g.Apart g' selection none none contents) :
    ∀ g ∈ gates, g.Settled selection none (gatedLines selection gates contents) := by
  suffices hall : ∀ (done rest : List LayerGate) (contents : List Text),
      (∀ g ∈ done ++ rest, ∀ g' ∈ done ++ rest, g ≠ g' → g.Apart g' selection none none contents) →
      (∀ g ∈ done, g.Settled selection none contents) →
      ∀ g ∈ done ++ rest, g.Settled selection none (gatedLines selection rest contents) by
    exact hall [] gates contents (by simpa using hapart) (by simp)
  intro done rest
  induction rest generalizing done with
  | nil =>
      intro contents _ hdone g hg
      exact hdone g (by simpa using hg)
  | cons gate rest ih =>
      intro contents hapart hdone
      have hwaits := gate.waits_none selection
      have hnext := ih (done ++ [gate]) (gate.guardedLines selection none contents)
        (fun g hg g' hg' hne => (hapart g (by simpa using hg) g' (by simpa using hg') hne).guardedLines hselection
          hwaits) ?_
      · simpa [gatedLines] using hnext
      · intro g hg
        by_cases hsame : g = gate
        · subst hsame
          exact LayerGate.settled_guardedLines hselection hwaits contents
        · have hmem : g ∈ done := by simpa [hsame] using hg
          exact (hdone g hmem).guardedLines hselection hwaits (hapart g (by simp [hmem]) gate (by simp) hsame)

/-- Another round over settled lines changes nothing. -/
theorem gatedLines_of_settled {selection : Text} {gates : List LayerGate} {contents : List Text}
    (h : ∀ g ∈ gates, g.Settled selection none contents) : gatedLines selection gates contents = contents := by
  induction gates with
  | nil => rfl
  | cons gate gates ih =>
      rw [List.forall_mem_cons] at h
      rw [gatedLines, List.foldl_cons, LayerGate.guardedLines_of_settled h.1]
      exact ih h.2

/-! ### Lines that gates ask for, as places in a text -/

/-- The places at which a gate finds the registration lines of its layers. -/
def LayerGate.gatedPlaces (gate : LayerGate) (selection t : Text) : List Nat :=
  Script.places ((gate.recognizer selection).script t)

namespace LayerGate

variable {gate other : LayerGate} {selection : Text}

theorem places_lineScript_cons (gate : LayerGate) (selection : Text) (waiting : Option Text) (lead : LineEnding)
    (content : Text) (below : List (LineEnding × Text)) :
    Script.places (gate.lineScript selection waiting ((lead, content) :: below))
      = (if (insertion? waiting content).isSome then [lead.text.length] else [])
        ++ (Script.places (gate.lineScript selection (gate.next selection waiting content) below)).map
          (lead.text.length + content.length + ·) := by
  rw [lineScript, List.append_assoc, List.append_assoc, Script.places_keeps_append]
  cases hinsertion : insertion? waiting content with
  | none =>
      simp [Script.places_keeps_append, Function.comp_def, Nat.add_assoc]
  | some inserted =>
      simp [Script.places, Script.places_keeps_append, Function.comp_def, Nat.add_assoc]

theorem apart_of_lineScript {waiting waiting' : Option Text} {below : List (LineEnding × Text)}
    (h : ∀ place ∈ Script.places (gate.lineScript selection waiting below),
      place ∉ Script.places (other.lineScript selection waiting' below)) :
    gate.Apart other selection waiting waiting' (below.map Prod.snd) := by
  induction below generalizing waiting waiting' with
  | nil => trivial
  | cons line below ih =>
      obtain ⟨lead, content⟩ := line
      rw [places_lineScript_cons, places_lineScript_cons] at h
      refine ⟨fun hboth => ?_, ih fun place hplace hother => ?_⟩
      · rw [if_pos hboth.1, if_pos hboth.2] at h
        exact h lead.text.length (by simp) (by simp)
      · exact h _ (List.mem_append_right _ (List.mem_map_of_mem hplace))
          (List.mem_append_right _ (List.mem_map_of_mem hother))

theorem gatedPlaces_text (gate : LayerGate) (selection : Text) {ls : Lines} (hls : ls.Unbroken) :
    gate.gatedPlaces selection ls.text
      = (Script.places (gate.lineScript selection (gate.guardFor? selection ls.top) ls.below)).map
        (ls.top.length + ·) := by
  rw [Lines.unbroken_iff] at hls
  rw [gatedPlaces, ← Script.places_spread, Lines.text, gate.spread_script_text selection hls.1 hls.2,
    Script.places_keeps_append]

/-- Gates whose layers are registered at different places ask for different lines. -/
theorem apart_of_gatedPlaces {ls : Lines} (hls : ls.Unbroken)
    (h : ∀ place ∈ gate.gatedPlaces selection ls.text, place ∉ other.gatedPlaces selection ls.text) :
    gate.Apart other selection none none ls.contents := by
  rw [gate.gatedPlaces_text selection hls, other.gatedPlaces_text selection hls] at h
  refine ⟨by simp [insertion?], apart_of_lineScript fun place hplace hother => ?_⟩
  exact h _ (List.mem_map_of_mem hplace) (List.mem_map_of_mem hother)

end LayerGate

/-! ### Rules that run after the gates -/

/-- A guarded line is remapped behind its guards. -/
theorem GuardedBy.remapped {selection : Text} {gates : List LayerGate}
    (hselection : WrittenIn argumentChar selection) (variant : Variant) {content line : Text}
    (hcontent : Unbroken content) (h : GuardedBy selection gates content line) :
    GuardedBy selection gates (remapped variant content) (remapped variant line) := by
  obtain ⟨chain, hchain, hregistered, rfl⟩ := h
  rcases hchain.isGuardText hselection with rfl | hguard
  · exact ⟨[], .nil, .inl rfl, rfl⟩
  · refine ⟨chain, hchain, hregistered.imp_right fun hsome => ?_, remapped_behind_guard variant hguard content⟩
    rw [LayerGate.isSome_throughRegistration?_remapped variant hcontent]
    exact hsome

namespace LayerGate

variable {gate : LayerGate} {selection : Text}

/-- Remapping bitmaps leaves a gate settled. -/
theorem Settled.remapped (hselection : WrittenIn argumentChar selection) (variant : Variant)
    {waiting : Option Text} (hwaits : gate.Waits selection waiting) {contents : List Text}
    (hcontents : ∀ content ∈ contents, Unbroken content) (h : gate.Settled selection waiting contents) :
    gate.Settled selection waiting (contents.map (remapped variant)) := by
  induction contents generalizing waiting with
  | nil => trivial
  | cons content contents ih =>
      rw [List.forall_mem_cons] at hcontents
      have hrest := ih (gate.waits_next hwaits content) hcontents.2 h.2
      have hguard : ∀ guard, waiting = some guard → '"' ∉ guard := fun guard hwaiting =>
        (gate.isGuardText_of_isGuard hselection (hwaits guard hwaiting)).written.not_mem rfl
      refine ⟨?_, ?_⟩
      · rw [insertion?_remapped variant hguard hcontents.1]
        exact h.1
      · rw [gate.next_remapped selection variant hcontents.1]
        exact hrest

/-- A line that no gate reads anything in. -/
def Mute (content : Text) : Prop :=
  throughRegistration? content = none ∧ '/' ∉ content

theorem next_of_mute {content : Text} (h : Mute content) (waiting : Option Text) :
    gate.next selection waiting content = waiting := by
  cases waiting with
  | none =>
      have hnil := gate.guardFor?_append_of_not_mem selection h.2 []
      rw [List.append_nil] at hnil
      exact hnil
  | some guard => simp [next, h.1]

/-- Mute lines above some of the lines leave a gate settled. -/
theorem Settled.flatMap {more : Text → List Text} (hmore : ∀ content, ∀ line ∈ more content, Mute line)
    {waiting : Option Text} {contents : List Text} (h : gate.Settled selection waiting contents) :
    gate.Settled selection waiting (contents.flatMap fun content => more content ++ [content]) := by
  have habove : ∀ (above : List Text) (waiting : Option Text) (below : List Text), (∀ line ∈ above, Mute line) →
      gate.Settled selection waiting below → gate.Settled selection waiting (above ++ below) := by
    intro above waiting below hmute hbelow
    induction above with
    | nil => exact hbelow
    | cons line above ih =>
        rw [List.forall_mem_cons] at hmute
        refine ⟨by rw [insertion?_eq_none hmute.1.1]; rfl, ?_⟩
        rw [next_of_mute hmute.1]
        exact ih hmute.2
  induction contents generalizing waiting with
  | nil => trivial
  | cons content contents ih =>
      rw [List.flatMap_cons, List.append_assoc]
      exact habove _ _ _ (hmore content) ⟨h.1, ih h.2⟩

end LayerGate

end CanvasExport.Rule
