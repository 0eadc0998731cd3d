/-
Module: CanvasExport.Proofs.Rule.Entry
Layer: Proofs
Purpose: What other rules can find in a lookup entry. The stem stands in it as a string literal, where each quote
  has a backslash in front, so no stem makes a fill; tags and bitmaps need a slash and a registration line needs
  its word, and these come from the literal of the stem or not at all.
Main exports: entryLine, lookupEntry_split, not_infix_entryLine, slash_not_mem_entryLine,
  throughRegistration?_entryLine
-/
import CanvasExport.Proofs.Rule.Fill
import CanvasExport.Proofs.Rule.Lookup
import CanvasExport.Rule.Registration

namespace CanvasExport.Rule

/-- The line that is written above a wiring line. -/
def entryLine (stem : Text) : Text :=
  lookupGuard ++ lookupEntry stem

/-- What an entry opens with. -/
def entryOpening : Text := "FILE_TO_ID[".toList

/-- What an entry closes with. -/
def entryClosing : Text := "] = lib.properties.id;".toList

theorem not_mem_entryOpening : ')' ∉ entryOpening := by
  decide

theorem append_literal_append (before t after : Text) :
    before ++ Text.literal t ++ after = before ++ '"' :: (Text.escaped t ++ '"' :: after) := by
  simp only [Text.literal, List.append_assoc, List.cons_append, List.nil_append]

/-- An entry has a quote behind its opening. -/
theorem lookupEntry_split (stem : Text) :
    lookupEntry stem = entryOpening ++ '"' :: (Text.escaped stem ++ '"' :: entryClosing) :=
  append_literal_append _ _ _

/-! ### Quotes in a literal -/

/-- An escape holds a quote only behind its backslash. -/
theorem escapedChar_cases (c : Char) : Text.escapedChar c = ['\\', '"'] ∨ '"' ∉ Text.escapedChar c := by
  fun_cases Text.escapedChar c with
  | case1 => exact .inl rfl
  | case2 | case3 | case4 | case5 | case6 | case7 => exact .inr (by decide)
  | case8 c _ _ _ _ _ _ _ hcontrol =>
      have hdigit : ∀ n, n < 16 → Text.hexDigit n ≠ '"' := by decide
      have hhigh := hdigit (c.toNat / 16) (by omega)
      have hlow := hdigit (c.toNat % 16) (by omega)
      exact .inr (by simp [hhigh.symm, hlow.symm])
  | case9 c hquote => exact .inr (by simpa using Ne.symm hquote)

theorem escapedChar_ne_nil (c : Char) : Text.escapedChar c ≠ [] := by
  fun_cases Text.escapedChar c <;> simp

/-- Two characters in a row are found in a part or across the seam, where the second part starts with the second. -/
theorem infix_pair_append {c d : Char} {above below : Text} (h : [c, d] <:+: above ++ below) :
    [c, d] <:+: above ∨ [c, d] <:+: below ∨ [d] <+: below := by
  rcases infix_append_cases h with habove | hbelow | ⟨early, late, heq, hearly, hlate, -, hhead⟩
  · exact .inl habove
  · exact .inr (.inl hbelow)
  · obtain ⟨e, early, rfl⟩ := List.exists_cons_of_ne_nil hearly
    obtain ⟨-, heq⟩ := List.cons.inj heq
    have hseam : early = [] ∧ late = [d] := by
      rcases List.append_eq_singleton_iff.1 heq.symm with hboth | ⟨-, hnil⟩
      · exact hboth
      · exact absurd hnil hlate
    exact .inr (.inr (hseam.2 ▸ hhead))

/-- What is escaped does not start with a quote. -/
theorem not_quote_prefix_escaped (t : Text) : ¬ ['"'] <+: Text.escaped t := by
  cases t with
  | nil => simp [Text.escaped]
  | cons c t =>
      rw [Text.escaped, List.flatMap_cons]
      intro hhead
      rcases escapedChar_cases c with hescape | hplain
      · rw [hescape] at hhead
        exact absurd hhead (by simp [List.cons_prefix_cons])
      · obtain ⟨d, rest, hd⟩ := List.exists_cons_of_ne_nil (escapedChar_ne_nil c)
        rw [hd, List.cons_append, List.cons_prefix_cons] at hhead
        exact hplain (hd ▸ hhead.1 ▸ List.mem_cons_self)

/-- What is escaped has a quote right behind a backslash only. -/
theorem not_pair_infix_escaped {d : Char} (hd : d ≠ '\\') (t : Text) : ¬ [d, '"'] <:+: Text.escaped t := by
  induction t with
  | nil => simp [Text.escaped]
  | cons c t ih =>
      rw [Text.escaped, List.flatMap_cons]
      intro hpair
      rcases infix_pair_append hpair with habove | hbelow | hseam
      · rcases escapedChar_cases c with hescape | hplain
        · rw [hescape] at habove
          have hwhole := habove.eq_of_length rfl
          exact hd (List.cons.inj hwhole).1
        · exact hplain (habove.subset (by simp))
      · exact ih hbelow
      · exact not_quote_prefix_escaped t hseam

theorem entryLine_split (stem : Text) :
    entryLine stem = (((lookupGuard ++ entryOpening) ++ ['"']) ++ Text.escaped stem) ++ '"' :: entryClosing := by
  rw [entryLine, lookupEntry_split]
  simp only [List.append_assoc, List.cons_append, List.nil_append]

theorem not_pair_infix_opening : ¬ ['(', '"'] <:+: (lookupGuard ++ entryOpening) ++ ['"'] := by
  decide +kernel

/-- No stem brings a quoted color into a fill call. -/
theorem not_infix_entryLine (stem : Text) : ¬ ['(', '"', '#'] <:+: entryLine stem := by
  have hclosing : '#' ∉ '"' :: entryClosing := by decide
  intro hoccurs
  rw [entryLine_split] at hoccurs
  have habove : ['(', '"'] ++ ['#'] <:+: ((lookupGuard ++ entryOpening) ++ ['"']) ++ Text.escaped stem :=
    (infix_append_iff_of_last hclosing).1 hoccurs
  have hpair : ['(', '"'] <:+: ((lookupGuard ++ entryOpening) ++ ['"']) ++ Text.escaped stem :=
    (List.prefix_append ['(', '"'] ['#']).isInfix.trans habove
  rcases infix_pair_append hpair with hup | hdown | hseam
  · exact not_pair_infix_opening hup
  · exact not_pair_infix_escaped (by decide) stem hdown
  · exact not_quote_prefix_escaped stem hseam

/-! ### Slashes and words -/

/-- Escaping brings in no slash. -/
theorem slash_not_mem_escaped {t : Text} (h : '/' ∉ t) : '/' ∉ Text.escaped t := by
  have hchar : ∀ c, c ≠ '/' → '/' ∉ Text.escapedChar c := by
    intro c hc
    fun_cases Text.escapedChar c with
    | case1 | case2 | case3 | case4 | case5 | case6 | case7 => decide
    | case8 c _ _ _ _ _ _ _ hcontrol =>
        have hdigit : ∀ n, n < 16 → Text.hexDigit n ≠ '/' := by decide
        have hhigh := hdigit (c.toNat / 16) (by omega)
        have hlow := hdigit (c.toNat % 16) (by omega)
        simp [hhigh.symm, hlow.symm]
    | case9 => simpa using Ne.symm hc
  intro hmem
  obtain ⟨c, hc, hslash⟩ := List.mem_flatMap.1 hmem
  exact hchar c (fun heq => h (heq ▸ hc)) hslash

theorem slash_not_mem_entryLine {stem : Text} (h : '/' ∉ stem) : '/' ∉ entryLine stem := by
  have hguard : '/' ∉ lookupGuard ++ entryOpening := by decide
  have hclosing : '/' ∉ '"' :: entryClosing := by decide
  have hstem := slash_not_mem_escaped h
  rw [entryLine_split]
  simp only [List.mem_append, List.mem_cons, not_or] at hguard hclosing ⊢
  exact ⟨⟨⟨hguard, by decide⟩, hstem⟩, hclosing⟩

theorem infix_of_throughRegistration? {t : Text} {found : Text × Text} (h : throughRegistration? t = some found) :
    registration <:+: t := by
  induction t generalizing found with
  | nil => simp [throughRegistration?] at h
  | cons c t ih =>
      rw [throughRegistration?] at h
      split at h
      · rename_i later _ hlater
        split at hlater
        · contradiction
        · exact (ih hlater).trans (List.suffix_cons _ _).isInfix
      · obtain ⟨after, hstrip, -⟩ := Option.map_eq_some_iff.1 h
        exact ⟨[], after, by rw [List.nil_append, Text.strip?_eq_some_iff.1 hstrip]⟩

/-- The registry that entries are made in. -/
def registryName : Text := "FILE_TO_ID".toList

/-- What an entry assigns. -/
def entryValue : Text := " = lib.properties.id;".toList

theorem entryOpening_eq : entryOpening = registryName ++ ['['] := by
  decide

theorem entryClosing_eq : entryClosing = ']' :: entryValue := by
  decide

theorem not_registration_entryLine :
    ¬ registration <:+: lookupGuard ++ registryName ∧ ¬ registration <:+: entryValue := by
  decide +kernel

theorem entryLine_eq (stem : Text) :
    entryLine stem = (lookupGuard ++ registryName) ++ '[' :: (Text.literal stem ++ ']' :: entryValue) := by
  have hentry : lookupEntry stem = entryOpening ++ Text.literal stem ++ entryClosing := rfl
  rw [entryLine, hentry, entryOpening_eq, entryClosing_eq]
  simp only [List.append_assoc, List.cons_append, List.nil_append]

/-- An entry is a registration line only by the literal of its stem. -/
theorem throughRegistration?_entryLine {stem : Text} (h : ¬ registration <:+: Text.literal stem) :
    throughRegistration? (entryLine stem) = none := by
  have hopen : '[' ∉ registration := by decide
  have hclose : ']' ∉ registration := by decide
  obtain ⟨hname, hvalue⟩ := not_registration_entryLine
  cases hthrough : throughRegistration? (entryLine stem) with
  | none => rfl
  | some found =>
      have hoccurs := infix_of_throughRegistration? hthrough
      rw [entryLine_eq, infix_append_cons_iff hopen, infix_append_cons_iff hclose] at hoccurs
      rcases hoccurs with hup | hliteral | hdown
      · exact absurd hup hname
      · exact absurd hliteral h
      · exact absurd hdown hvalue

end CanvasExport.Rule
