/-
Module: CanvasExport.Proofs.Rule.Guard
Layer: Proofs
Purpose: Guards in front of lines. A guard is closed by a parenthesis and holds neither quotes, slashes nor commas,
  so no heading, marker, literal or tag starts in one or reaches into one; what a line says to every rule is
  said by what stands behind its guards.
Main exports: IsGuardText, LayerGate.IsGuard, LayerGate.isGuard_of_guardFor?, GuardChain,
  infix_behind_guard_iff, LayerGate.guardFor?_append_of_not_mem, throughRegistration?_append
-/
import CanvasExport.Proofs.Rule.Alias
import CanvasExport.Proofs.Rule.Layer
import CanvasExport.Proofs.Text.Alphabet

namespace CanvasExport.Rule

/-- The characters of guards. -/
def guardChar (c : Char) : Bool :=
  argumentChar c || c == ' ' || c == '(' || c == ')' || c == '=' || c == '&'

/-- The characters of conditions: those of guards without parentheses. -/
def conditionChar (c : Char) : Bool :=
  argumentChar c || c == ' ' || c == '=' || c == '&'

/-- What guards have in common, one of them or several in a row. -/
structure IsGuardText (t : Text) : Prop where
  written : WrittenIn guardChar t
  closed : ∃ front, t = front ++ [')']

theorem IsGuardText.append {s t : Text} (hs : IsGuardText s) (ht : IsGuardText t) : IsGuardText (s ++ t) where
  written := WrittenIn.append_iff.2 ⟨hs.written, ht.written⟩
  closed := by
    obtain ⟨front, rfl⟩ := ht.closed
    exact ⟨s ++ front, by simp⟩

theorem IsGuardText.ne_nil {t : Text} (h : IsGuardText t) : t ≠ [] := by
  obtain ⟨front, rfl⟩ := h.closed
  simp

/-! ### The guards of gates -/

namespace LayerGate

variable (gate : LayerGate) {selection : Text}

/-- A guard that the gate puts in front of some line; the variant of hair and eyes is a number. -/
def IsGuard (selection guard : Text) : Prop :=
  ∃ variant, (gate.kind ≠ .avatar → variant ≠ [] ∧ WrittenIn Char.isDigit variant)
    ∧ guard = gate.guard selection variant

theorem variant_of_firstSuffix? {t suffix : Text} (h : gate.firstSuffix? t = some suffix)
    (hkind : gate.kind ≠ .avatar) : suffix ≠ [] ∧ WrittenIn Char.isDigit suffix := by
  have hhere : ∀ t : Text, gate.suffix? t = some suffix → suffix ≠ [] ∧ WrittenIn Char.isDigit suffix := by
    intro t h
    rw [suffix?] at h
    cases hstrip : Text.strip? gate.tag t with
    | none => simp [hstrip] at h
    | some rest =>
        cases hgate : gate.kind with
        | avatar => exact absurd hgate hkind
        | hair | eyes =>
            simp only [hstrip, hgate, Option.bind_eq_bind, Option.bind_some] at h
            split at h
            · contradiction
            · rename_i hdigits
              obtain rfl := Option.some.inj h
              exact ⟨by simpa using hdigits, fun c hmem => List.all_eq_true.1 List.all_takeWhile c hmem⟩
  induction t with
  | nil => simp [firstSuffix?] at h
  | cons c t ih =>
      rw [firstSuffix?, Option.or_eq_some_iff] at h
      rcases h with h | ⟨-, h⟩
      · exact hhere (c :: t) h
      · exact ih h

/-- What a tag asks for is a guard of its gate. -/
theorem isGuard_of_guardFor? {t guard : Text} (h : gate.guardFor? selection t = some guard) :
    gate.IsGuard selection guard := by
  obtain ⟨suffix, hsuffix, h⟩ := Option.bind_eq_some_iff.1 h
  split at h
  · contradiction
  · exact ⟨suffix, gate.variant_of_firstSuffix? hsuffix, (Option.some.inj h).symm⟩

theorem writtenIn_condition {variant : Text} (hselection : WrittenIn argumentChar selection)
    (hvariant : gate.kind ≠ .avatar → WrittenIn Char.isDigit variant) :
    WrittenIn conditionChar (gate.condition selection variant) := by
  have hargument : ∀ t : Text, WrittenIn argumentChar t → WrittenIn conditionChar t :=
    fun t ht => ht.mono fun c hc => by simp [conditionChar, hc]
  have hdigits : ∀ t : Text, WrittenIn Char.isDigit t → WrittenIn conditionChar t :=
    fun t ht => hargument t (ht.mono fun c hc => by simp [argumentChar, identifierChar, hc])
  have hselection := hargument selection hselection
  have hnumeral := hdigits _ (writtenIn_numeral gate.figure)
  have hfigure : WrittenIn conditionChar ".figure == ".toList := by decide
  have hand : WrittenIn conditionChar " && ".toList := by decide
  have hequals : WrittenIn conditionChar " == ".toList := by decide
  have hdot : WrittenIn conditionChar ['.'] := by decide
  have hhair : WrittenIn conditionChar LayerKind.hair.word := by decide
  have heyes : WrittenIn conditionChar LayerKind.eyes.word := by decide
  have hbase := (hselection.append hfigure).append hnumeral
  rw [condition]
  cases hkind : gate.kind with
  | avatar => exact hbase
  | hair =>
      have hnumber := hdigits _ (hvariant (by simp [hkind]))
      exact (((((hbase.append hand).append hselection).append hdot).append hhair).append hequals).append hnumber
  | eyes =>
      have hnumber := hdigits _ (hvariant (by simp [hkind]))
      exact (((((hbase.append hand).append hselection).append hdot).append heyes).append hequals).append hnumber

theorem isGuardText_of_isGuard {guard : Text} (hselection : WrittenIn argumentChar selection)
    (h : gate.IsGuard selection guard) : IsGuardText guard := by
  obtain ⟨variant, hvariant, rfl⟩ := h
  have hopening : WrittenIn guardChar "if (".toList := by decide
  have hcondition : WrittenIn guardChar (gate.condition selection variant) :=
    (gate.writtenIn_condition hselection fun hkind => (hvariant hkind).2).mono fun c hc => by
      simp only [conditionChar, Bool.or_eq_true] at hc
      rcases hc with ((hc | hc) | hc) | hc <;> simp [guardChar, hc]
  exact ⟨(hopening.append hcondition).append (by decide), _, rfl⟩

end LayerGate

/-- Guards of the gates, one in front of the other. -/
inductive GuardChain (selection : Text) (gates : List LayerGate) : Text → Prop
  | nil : GuardChain selection gates []
  | cons {gate : LayerGate} {guard chain : Text} (hgate : gate ∈ gates) (hguard : gate.IsGuard selection guard)
      (hchain : GuardChain selection gates chain) : GuardChain selection gates (guard ++ chain)

theorem GuardChain.isGuardText {selection : Text} {gates : List LayerGate} {chain : Text}
    (hselection : WrittenIn argumentChar selection) (h : GuardChain selection gates chain) :
    chain = [] ∨ IsGuardText chain := by
  induction h with
  | nil => exact .inl rfl
  | cons hgate hguard hchain ih =>
      have hguard := LayerGate.isGuardText_of_isGuard _ hselection hguard
      rcases ih with rfl | ih
      · exact .inr (by simpa using hguard)
      · exact .inr (hguard.append ih)

/-! ### What stands behind a guard -/

section Behind

variable {guard : Text} (h : IsGuardText guard)

include h

theorem IsGuardText.unbroken : Unbroken guard :=
  h.written.unbroken rfl rfl

/-- No text that starts with another character starts with a guard. -/
theorem not_prefix_guard {c : Char} (hc : guardChar c = false) (needle content : Text) :
    ¬ c :: needle <+: guard ++ content := by
  obtain ⟨d, rest, rfl⟩ := List.exists_cons_of_ne_nil h.ne_nil
  intro hhead
  obtain rfl := (List.cons_prefix_cons.1 hhead).1
  rw [(WrittenIn.cons_iff.1 h.written).1] at hc
  contradiction

theorem ne_of_guard {c : Char} (hc : guardChar c = false) (line content : Text) :
    guard ++ content ≠ c :: line := by
  intro heq
  exact not_prefix_guard h hc line content (heq ▸ List.prefix_rfl)

theorem suffix_behind_guard_iff {needle : Text} (hneedle : ')' ∉ needle) (content : Text) :
    needle <:+ guard ++ content ↔ needle <:+ content := by
  obtain ⟨front, rfl⟩ := h.closed
  rw [List.append_assoc, List.singleton_append, suffix_append_cons_iff hneedle]

/-- A needle with a character that guards do not hold, and no parenthesis before that, lies behind them. -/
theorem infix_behind_guard_iff {early late : Text} {c : Char} (hc : guardChar c = false) (hearly : ')' ∉ early)
    (content : Text) : early ++ c :: late <:+: guard ++ content ↔ early ++ c :: late <:+: content := by
  have hfree : c ∉ guard := h.written.not_mem hc
  obtain ⟨front, rfl⟩ := h.closed
  simp only [List.mem_append, List.mem_singleton, not_or] at hfree
  rw [List.append_assoc, List.singleton_append, infix_behind_cons_iff hfree.1 hfree.2 hearly]

theorem isConstructorLine_behind_guard (content : Text) :
    isConstructorLine (guard ++ content) = isConstructorLine content := by
  have hcomma : ',' ∉ guard := h.written.not_mem rfl
  obtain ⟨front, rfl⟩ := h.closed
  have hfront : ¬ constructorOpening <:+: front := by
    intro hoccurs
    exact hcomma (List.mem_append_left _ (hoccurs.subset (by decide)))
  rw [Bool.eq_iff_iff, List.append_assoc, List.singleton_append, isConstructorLine_append_cons (by decide)]
  constructor
  · rintro (hline | hline | hline)
    · exact absurd (infix_of_isConstructorLine hline) hfront
    · exact absurd hline.1 hfront
    · exact hline
  · exact fun hline => .inr (.inr hline)

end Behind

/-! ### What gates read behind a guard -/

namespace LayerGate

variable (gate : LayerGate) (selection : Text)

/-- A tag starts with a slash. -/
theorem suffix?_cons_of_ne {c : Char} (hc : c ≠ '/') (t : Text) : gate.suffix? (c :: t) = none := by
  cases hstrip : Text.strip? gate.tag (c :: t) with
  | none => simp [suffix?, hstrip]
  | some rest => exact absurd (List.cons.inj (Text.strip?_eq_some_iff.1 hstrip)).1 hc

theorem guardFor?_append_of_not_mem {above : Text} (h : '/' ∉ above) (below : Text) :
    gate.guardFor? selection (above ++ below) = gate.guardFor? selection below := by
  induction above with
  | nil => rfl
  | cons c above ih =>
      simp only [List.mem_cons, not_or] at h
      rw [List.cons_append, gate.guardFor?_cons_of_none selection (gate.suffix?_cons_of_ne (Ne.symm h.1) _),
        ih h.2]

end LayerGate

/-- A registration line stays one behind any text that breaks no line. -/
theorem throughRegistration?_append {above content line tail : Text} (habove : Unbroken above)
    (h : throughRegistration? content = some (line, tail)) :
    throughRegistration? (above ++ content) = some (above ++ line, tail) := by
  induction above with
  | nil => exact h
  | cons c above ih =>
      rw [unbroken_cons] at habove
      have hlf : c ≠ '\n' := by
        rintro rfl
        exact absurd habove.1 (by decide)
      rw [List.cons_append, throughRegistration?, if_neg hlf, ih habove.2]
      rfl

end CanvasExport.Rule
