/-
Module: CanvasExport.Proofs.Rule.Regating
Layer: Proofs
Purpose: Another round of the gates over lines that they have guarded. Guards hide nothing from a gate, so it asks for
  the same lines again and counts the same. But of two different guards only one can stand in front, so a line that
  two gates ask for is guarded anew, and a round changes nothing exactly if there is no such line.
Main exports: LayerGate.eq_of_guard_prefix, LayerGate.eq_of_isGuard, LayerGate.guardCount_guarded,
  LayerGate.apart_guarded_iff, passCount_gatedLines, gatedLines_gatedLines_iff, LayerGate.apart_iff_gatedPlaces
-/
import CanvasExport.Proofs.Rule.Lines
import CanvasExport.Proofs.Text.Numeral

namespace CanvasExport.Rule

/-! ### Guards name their gates -/

namespace LayerGate

variable {gate other : LayerGate} {selection : Text}

/-- A guard ends at its first closing parenthesis. -/
theorem exists_of_isGuard (hselection : WrittenIn argumentChar selection) {guard : Text}
    (h : gate.IsGuard selection guard) : ∃ front, guard = front ++ [')'] ∧ ')' ∉ front := by
  obtain ⟨variant, hvariant, rfl⟩ := h
  have hcondition := gate.writtenIn_condition hselection fun hkind => (hvariant hkind).2
  have hfree : ')' ∉ gate.condition selection variant := hcondition.not_mem (by decide)
  exact ⟨"if (".toList ++ gate.condition selection variant, rfl, by simp [hfree]⟩

/-- Of two different guards neither starts a text that the other one starts. -/
theorem eq_of_guard_prefix (hselection : WrittenIn argumentChar selection) {guard guard' t : Text}
    (h : gate.IsGuard selection guard) (h' : other.IsGuard selection guard') (hstarts : guard <+: t)
    (hstarts' : guard' <+: t) : guard = guard' := by
  obtain ⟨front, rfl, hfront⟩ := exists_of_isGuard hselection h
  obtain ⟨front', rfl, hfront'⟩ := exists_of_isGuard hselection h'
  have hrun : ∀ {front : Text}, ')' ∉ front → front ++ [')'] <+: t → t.takeWhile (· != ')') = front := by
    rintro front hfree ⟨rest, rfl⟩
    rw [List.append_assoc, List.singleton_append]
    exact takeWhile_append_of_ends (.of_not_mem hfree) (ends_cons.2 rfl)
  rw [← hrun hfront hstarts, hrun hfront' hstarts']

/-- What a condition says behind its figure. -/
def feature (gate : LayerGate) (selection variant : Text) : Text :=
  match gate.kind with
  | .avatar => []
  | kind => " && ".toList ++ selection ++ ['.'] ++ kind.word ++ " == ".toList ++ variant

theorem condition_eq (gate : LayerGate) (selection variant : Text) :
    gate.condition selection variant
      = selection ++ ".figure == ".toList ++ (Text.numeral gate.figure ++ gate.feature selection variant) := by
  rw [condition, feature]
  cases gate.kind <;> simp

theorem ends_feature (gate : LayerGate) (selection variant : Text) :
    Ends Char.isDigit (gate.feature selection variant) := by
  rw [feature]
  cases gate.kind with
  | avatar => exact ends_nil
  | hair | eyes => exact ends_cons.2 rfl

/-- A guard is the guard of one gate only. -/
theorem eq_of_isGuard {guard : Text} (h : gate.IsGuard selection guard) (h' : other.IsGuard selection guard) :
    gate = other := by
  obtain ⟨variant, -, rfl⟩ := h
  obtain ⟨variant', -, hguard⟩ := h'
  have hcondition : gate.condition selection variant = other.condition selection variant' := by
    simpa [guard] using hguard
  rw [condition_eq, condition_eq, List.append_cancel_left_eq] at hcondition
  have hrun := congrArg (List.takeWhile Char.isDigit) hcondition
  rw [takeWhile_append_of_ends (writtenIn_numeral _) (ends_feature _ _ _),
    takeWhile_append_of_ends (writtenIn_numeral _) (ends_feature _ _ _)] at hrun
  have hfigure : gate.figure = other.figure := by
    rw [← Text.digitsValue_numeral gate.figure, hrun, Text.digitsValue_numeral]
  rw [hrun, List.append_cancel_left_eq] at hcondition
  have hkind : gate.kind = other.kind := by
    cases hkind : gate.kind <;> cases hkind' : other.kind <;>
      simp [feature, hkind, hkind', LayerKind.word] at hcondition ⊢
  cases gate
  cases other
  simp_all

end LayerGate

/-! ### Settled gates -/

namespace LayerGate

variable {gate other : LayerGate} {selection : Text} {contents : List Text}

theorem settled_iff {waiting : Option Text} :
    gate.Settled selection waiting contents ↔ gate.guardedLines selection waiting contents = contents := by
  refine ⟨guardedLines_of_settled, fun hfixed => ?_⟩
  induction contents generalizing waiting with
  | nil => trivial
  | cons content contents ih =>
      rw [guardedLines, List.cons.injEq] at hfixed
      exact ⟨List.append_left_eq_self.1 hfixed.1, ih hfixed.2⟩

/-- A line that a settled gate asks for starts with a guard of that gate. -/
theorem exists_guard_of_asked {waiting : Option Text} (hwaits : gate.Waits selection waiting) {content : Text}
    (hasked : (insertion? waiting content).isSome) (hsettled : (insertion? waiting content).getD [] = []) :
    ∃ guard, gate.IsGuard selection guard ∧ guard <+: content := by
  cases waiting with
  | none => contradiction
  | some guard =>
      have hguard := hwaits guard rfl
      refine ⟨guard, hguard, ?_⟩
      cases hthrough : throughRegistration? content with
      | none => simp [insertion?_eq_none hthrough] at hasked
      | some found =>
          have hstarts : guard <+: found.1 := by
            rw [insertion?_of_registered guard hthrough] at hsettled
            split at hsettled
            · rename_i hstarts
              exact List.isPrefixOf_iff_prefix.1 hstarts
            · obtain ⟨variant, -, rfl⟩ := hguard
              contradiction
          exact hstarts.trans ⟨found.2, append_of_throughRegistration? hthrough⟩

/-- Different gates that are both settled ask for different lines. -/
theorem Settled.apart (hselection : WrittenIn argumentChar selection) (hne : gate ≠ other)
    {waiting waiting' : Option Text} (hwaits : gate.Waits selection waiting) (hwaits' : other.Waits selection waiting')
    (h : gate.Settled selection waiting contents) (h' : other.Settled selection waiting' contents) :
    gate.Apart other selection waiting waiting' contents := by
  induction contents generalizing waiting waiting' with
  | nil => trivial
  | cons content contents ih =>
      refine ⟨fun hasked => hne ?_, ih (gate.waits_next hwaits content) (other.waits_next hwaits' content) h.2 h'.2⟩
      obtain ⟨guard, hguard, hstarts⟩ := exists_guard_of_asked hwaits hasked.1 h.1
      obtain ⟨guard', hguard', hstarts'⟩ := exists_guard_of_asked hwaits' hasked.2 h'.1
      have hsame := eq_of_guard_prefix hselection hguard hguard' hstarts hstarts'
      exact eq_of_isGuard hguard (hsame ▸ hguard')

end LayerGate

/-! ### Another round -/

variable {selection : Text} {gates : List LayerGate} {contents : List Text}

/-- Passes count the same in lines in which every gate counts the same. -/
theorem passCount_congr (hselection : WrittenIn argumentChar selection) {contents lines : List Text}
    (h : ∀ gate : LayerGate, gate.guardCount selection none lines = gate.guardCount selection none contents) :
    Rewrite.passCount (fun gate : LayerGate => gate.guardedLines selection none)
        (fun gate => gate.guardCount selection none) gates lines
      = Rewrite.passCount (fun gate : LayerGate => gate.guardedLines selection none)
        (fun gate => gate.guardCount selection none) gates contents := by
  induction gates generalizing contents lines with
  | nil => rfl
  | cons gate gates ih =>
      have hpass : ∀ (lines : List Text) (other : LayerGate),
          other.guardCount selection none (gate.guardedLines selection none lines)
            = other.guardCount selection none lines := fun lines other =>
        LayerGate.guardCount_guarded hselection (gate.forall₂_guardedLines (gate.waits_none selection) lines) other none
      have hsame : ∀ other : LayerGate, other.guardCount selection none (gate.guardedLines selection none lines)
          = other.guardCount selection none (gate.guardedLines selection none contents) :=
        fun other => by rw [hpass, hpass, h]
      rw [Rewrite.passCount, Rewrite.passCount, h, ih hsame]

/-- Another round counts what the first one counted. -/
theorem passCount_gatedLines (hselection : WrittenIn argumentChar selection) (gates : List LayerGate)
    (contents : List Text) :
    Rewrite.passCount (fun gate : LayerGate => gate.guardedLines selection none)
        (fun gate => gate.guardCount selection none) gates (gatedLines selection gates contents)
      = Rewrite.passCount (fun gate : LayerGate => gate.guardedLines selection none)
        (fun gate => gate.guardCount selection none) gates contents :=
  passCount_congr hselection fun gate =>
    gate.guardCount_guarded hselection (forall₂_gatedLines selection gates contents) none

/-- Lines that guards are put in front of, and get back, were given none. -/
theorem eq_of_guardedBy_guardedBy {more : List LayerGate} {lines : List Text}
    (h : List.Forall₂ (GuardedBy selection gates) contents lines)
    (h' : List.Forall₂ (GuardedBy selection more) lines contents) : lines = contents := by
  induction h with
  | nil => rfl
  | cons hline _ ih =>
      cases h' with
      | cons hline' hrest' =>
          have hsame := (suffix_of_guardedBy hline').eq_of_length_le (suffix_of_guardedBy hline).length_le
          rw [hsame, ih hrest']

/-- A round that changes nothing in the end changes nothing in any pass. -/
theorem settled_of_gatedLines_eq (h : gatedLines selection gates contents = contents) :
    ∀ g ∈ gates, g.Settled selection none contents := by
  induction gates with
  | nil => simp
  | cons gate gates ih =>
      have hfirst := gate.forall₂_guardedLines (gate.waits_none selection) contents
      have hrest := forall₂_gatedLines selection gates (gate.guardedLines selection none contents)
      have hwhole : gatedLines selection gates (gate.guardedLines selection none contents) = contents := h
      rw [hwhole] at hrest
      have hpass := eq_of_guardedBy_guardedBy hfirst hrest
      rw [hpass] at hwhole
      rw [List.forall_mem_cons]
      exact ⟨LayerGate.settled_iff.2 hpass, ih hwhole⟩

/-- Another round changes nothing exactly if no two gates ask for the same line. -/
theorem gatedLines_gatedLines_iff (hselection : WrittenIn argumentChar selection) :
    gatedLines selection gates (gatedLines selection gates contents) = gatedLines selection gates contents
      ↔ ∀ g ∈ gates, ∀ g' ∈ gates, g ≠ g' → g.Apart g' selection none none contents := by
  constructor
  · intro hfixed g hg g' hg' hne
    have hsettled := settled_of_gatedLines_eq hfixed
    rw [← LayerGate.apart_guarded_iff hselection (forall₂_gatedLines selection gates contents)]
    exact (hsettled g hg).apart hselection hne (g.waits_none selection) (g'.waits_none selection) (hsettled g' hg')
  · exact fun hapart => gatedLines_of_settled (settled_gatedLines hselection hapart)

/-! ### Places in the text -/

namespace LayerGate

variable {gate other : LayerGate}

theorem place_pos {waiting : Option Text} {below : List (LineEnding × Text)} {place : Nat}
    (h : place ∈ Script.places (gate.lineScript selection waiting below)) : 0 < place := by
  cases below with
  | nil => simp [lineScript, Script.places] at h
  | cons line below =>
      obtain ⟨lead, content⟩ := line
      have hlead : 0 < lead.text.length := by cases lead <;> decide
      rw [places_lineScript_cons, List.mem_append] at h
      rcases h with hhere | hbelow
      · split at hhere
        · rw [List.mem_singleton.1 hhere]
          exact hlead
        · simp at hhere
      · obtain ⟨later, -, rfl⟩ := List.mem_map.1 hbelow
        omega

/-- Gates that ask for different lines find them at different places. -/
theorem lineScript_of_apart {waiting waiting' : Option Text} {below : List (LineEnding × Text)}
    (h : gate.Apart other selection waiting waiting' (below.map Prod.snd)) :
    ∀ place ∈ Script.places (gate.lineScript selection waiting below),
      place ∉ Script.places (other.lineScript selection waiting' below) := by
  induction below generalizing waiting waiting' with
  | nil => simp [lineScript, Script.places]
  | cons line below ih =>
      obtain ⟨lead, content⟩ := line
      have hbehind : ∀ (gate : LayerGate) (waiting : Option Text) (later : Nat),
          later ∈ Script.places (gate.lineScript selection waiting below) → 0 < later :=
        fun gate waiting later hlater => place_pos hlater
      intro place hplace hplace'
      rw [places_lineScript_cons, List.mem_append] at hplace hplace'
      rcases hplace with hhere | hlater <;> rcases hplace' with hhere' | hlater'
      · split at hhere <;> split at hhere' <;> simp_all [Apart]
      · obtain ⟨later, hmem, heq⟩ := List.mem_map.1 hlater'
        have hpos := hbehind other _ later hmem
        split at hhere
        · rw [List.mem_singleton.1 hhere] at heq
          omega
        · simp at hhere
      · obtain ⟨later, hmem, heq⟩ := List.mem_map.1 hlater
        have hpos := hbehind gate _ later hmem
        split at hhere'
        · rw [List.mem_singleton.1 hhere'] at heq
          omega
        · simp at hhere'
      · obtain ⟨later, hmem, heq⟩ := List.mem_map.1 hlater
        obtain ⟨later', hmem', heq'⟩ := List.mem_map.1 hlater'
        obtain rfl : later = later' := by omega
        exact ih h.2 later hmem hmem'

/-- That is what the places of their layers in the text say. -/
theorem apart_iff_gatedPlaces (gate other : LayerGate) (selection : Text) {ls : Lines} (hls : ls.Unbroken) :
    gate.Apart other selection none none ls.contents
      ↔ ∀ place ∈ gate.gatedPlaces selection ls.text, place ∉ other.gatedPlaces selection ls.text := by
  refine ⟨fun h => ?_, apart_of_gatedPlaces hls⟩
  rw [gate.gatedPlaces_text selection hls, other.gatedPlaces_text selection hls]
  intro place hplace hplace'
  obtain ⟨later, hmem, rfl⟩ := List.mem_map.1 hplace
  obtain ⟨later', hmem', heq⟩ := List.mem_map.1 hplace'
  obtain rfl : later' = later := by omega
  exact lineScript_of_apart h.2 later' hmem hmem'

end LayerGate

end CanvasExport.Rule
