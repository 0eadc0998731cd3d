/-
Module: CanvasExport.Proofs.Text.Infix
Layer: Proofs
Purpose: Where a needle can lie in a text that is put together from parts. A character that the needle does not
  hold separates the parts: nothing of the needle can reach across it. Where there is no such character, an
  occurrence lies in one of the parts or is cut in two by the seam.
Main exports: prefix_append_cons_iff, suffix_append_cons_iff, infix_append_cons_iff, infix_append_cases,
  infix_append_iff_of_first, infix_append_iff_of_last, infix_behind_cons_iff, exists_of_append_cons_eq
-/

namespace CanvasExport

variable {α : Type}

/-- A prefix ends before a character that it does not hold. -/
theorem prefix_append_cons_iff {needle above below : List α} {c : α} (h : c ∉ needle) :
    needle <+: above ++ c :: below ↔ needle <+: above := by
  induction above generalizing needle with
  | nil =>
      cases needle with
      | nil => simp
      | cons n needle =>
          have hne : n ≠ c := by
            rintro rfl
            simp at h
          simp [List.cons_prefix_cons, hne]
  | cons d above ih =>
      cases needle with
      | nil => simp
      | cons n needle =>
          simp only [List.mem_cons, not_or] at h
          simp [List.cons_prefix_cons, ih h.2]

/-- A suffix starts behind a character that it does not hold. -/
theorem suffix_append_cons_iff {needle above below : List α} {c : α} (h : c ∉ needle) :
    needle <:+ above ++ c :: below ↔ needle <:+ below := by
  rw [← List.reverse_prefix, ← List.reverse_prefix]
  have hreverse : (above ++ c :: below).reverse = below.reverse ++ c :: above.reverse := by simp
  rw [hreverse]
  exact prefix_append_cons_iff (by simpa using h)

/-- An occurrence lies on one side of a character that it does not hold. -/
theorem infix_append_cons_iff {needle above below : List α} {c : α} (h : c ∉ needle) :
    needle <:+: above ++ c :: below ↔ needle <:+: above ∨ needle <:+: below := by
  induction above with
  | nil =>
      have hhead : needle <+: c :: below ↔ needle = [] := by
        rw [← List.prefix_nil]
        exact @prefix_append_cons_iff _ needle [] below c h
      rw [List.nil_append, List.infix_cons_iff, hhead, List.infix_nil]
  | cons d above ih =>
      have hhead : needle <+: d :: (above ++ c :: below) ↔ needle <+: d :: above :=
        @prefix_append_cons_iff _ needle (d :: above) below c h
      rw [List.cons_append, List.infix_cons_iff, hhead, ih, List.infix_cons_iff, or_assoc]

/-- An occurrence in two joined texts lies in one of them or is cut by the seam into two parts that are
    not empty. -/
theorem infix_append_cases {needle above below : List α} (h : needle <:+: above ++ below) :
    needle <:+: above ∨ needle <:+: below ∨
      ∃ early late, needle = early ++ late ∧ early ≠ [] ∧ late ≠ [] ∧ early <:+ above ∧ late <+: below := by
  obtain ⟨before, after, hwhole⟩ := h
  rw [List.append_assoc] at hwhole
  rcases List.append_eq_append_iff.1 hwhole with ⟨gap, habove, hrest⟩ | ⟨gap, _, hbelow⟩
  · rcases List.append_eq_append_iff.1 hrest with ⟨spare, hgap, _⟩ | ⟨late, hneedle, hafter⟩
    · exact .inl ⟨before, spare, by rw [habove, hgap, List.append_assoc]⟩
    · by_cases hearly : gap = []
      · subst hearly
        exact .inr (.inl ⟨[], after, by simpa [hneedle] using hafter.symm⟩)
      · by_cases hlate : late = []
        · subst hlate
          exact .inl ⟨before, [], by simp [habove, hneedle]⟩
        · exact .inr (.inr ⟨gap, late, hneedle, hearly, hlate, ⟨before, habove.symm⟩, ⟨after, hafter.symm⟩⟩)
  · exact .inr (.inl ⟨gap, after, by rw [hbelow, List.append_assoc]⟩)

/-- A needle lies below a text that does not hold the needle's first character. -/
theorem infix_append_iff_of_first {needle above below : List α} {c : α} (h : c ∉ above) :
    c :: needle <:+: above ++ below ↔ c :: needle <:+: below := by
  induction above with
  | nil => rfl
  | cons d above ih =>
      simp only [List.mem_cons, not_or] at h
      rw [List.cons_append, List.infix_cons_iff, ih h.2, List.cons_prefix_cons]
      simp [h.1]

/-- So it is for a needle at the end. -/
theorem suffix_append_iff_of_first {needle above below : List α} {c : α} (h : c ∉ above) :
    c :: needle <:+ above ++ below ↔ c :: needle <:+ below := by
  induction above with
  | nil => rfl
  | cons d above ih =>
      simp only [List.mem_cons, not_or] at h
      rw [List.cons_append, List.suffix_cons_iff, ih h.2, List.cons.injEq]
      simp [h.1]

/-- A needle lies above a text that does not hold the needle's last character. -/
theorem infix_append_iff_of_last {needle above below : List α} {c : α} (h : c ∉ below) :
    needle ++ [c] <:+: above ++ below ↔ needle ++ [c] <:+: above := by
  constructor
  · intro hoccurs
    rcases infix_append_cases hoccurs with habove | hbelow | ⟨early, late, heq, _, hlate, _, hhead⟩
    · exact habove
    · exact absurd (hbelow.subset (by simp)) h
    · obtain ⟨front, d, rfl⟩ := (List.eq_nil_or_concat late).resolve_left hlate
      rw [List.concat_eq_append, ← List.append_assoc] at heq
      obtain rfl : c = d := by simpa using (List.append_inj' heq rfl).2
      exact absurd (hhead.subset (by simp)) h
  · exact fun hoccurs => hoccurs.trans (List.prefix_append _ _).isInfix

/-- A needle lies below a text that does not hold one of its characters, if that text ends in a character
    which the needle does not hold before that one. -/
theorem infix_behind_cons_iff {early late above below : List α} {c d : α} (habove : c ∉ above) (hne : c ≠ d)
    (hearly : d ∉ early) : early ++ c :: late <:+: above ++ d :: below ↔ early ++ c :: late <:+: below := by
  constructor
  · intro hoccurs
    have hseam : above ++ d :: below = (above ++ [d]) ++ below := by simp
    rw [hseam] at hoccurs
    have hfree : c ∉ above ++ [d] := by simp [habove, hne]
    rcases infix_append_cases hoccurs with hup | hbelow | ⟨first, second, heq, hfirst, _, hup, _⟩
    · exact absurd (hup.subset (by simp)) hfree
    · exact hbelow
    · -- What lies above ends in `d` and does not reach `c`, so `d` would stand before `c`.
      have hearlier : first <+: early := by
        have hsplit : first <+: early ++ c :: late := ⟨second, heq.symm⟩
        exact (prefix_append_cons_iff fun hmem => hfree (hup.subset hmem)).1 hsplit
      obtain ⟨front, last, rfl⟩ := (List.eq_nil_or_concat first).resolve_left hfirst
      obtain ⟨before, hbefore⟩ := hup
      rw [List.concat_eq_append, ← List.append_assoc] at hbefore
      obtain rfl : last = d := by simpa using (List.append_inj' hbefore rfl).2
      exact absurd (hearlier.subset (by simp)) hearly
  · exact fun hoccurs => hoccurs.trans ((List.suffix_cons _ _).trans (List.suffix_append _ _)).isInfix

/-- A text cannot be split at a character before the first one. -/
theorem exists_of_append_cons_eq {above above' below below' : List α} {c : α} (h : c ∉ above')
    (heq : above ++ c :: below = above' ++ c :: below') :
    ∃ gap, above = above' ++ gap ∧ c :: below' = gap ++ c :: below := by
  rcases List.append_eq_append_iff.1 heq with ⟨gap, habove, hbelow⟩ | hlater
  · cases gap with
    | nil => exact ⟨[], by simpa using habove.symm, hbelow.symm⟩
    | cons d gap =>
        obtain rfl := (List.cons.inj hbelow).1
        exact absurd (habove ▸ List.mem_append_right _ List.mem_cons_self) h
  · exact hlater

end CanvasExport
