/-
Module: CanvasExport.Proofs.Rule.Registration
Layer: Proofs
Purpose: The search for a registration line, line by line. In lines without line-ending characters it finds the
  first line below that holds the registration word, and no line starts within another.
Main exports: Silent, silent_or_registered, throughRegistration?_line, nextRegistration?_within,
  nextRegistration?_of_silent, nextRegistration?_of_registered, lastInLine?_eq_none
-/
import CanvasExport.Proofs.Rule.LineStart
import CanvasExport.Rule.Layer

namespace CanvasExport.Rule

/-- Lines none of which is a registration line. -/
def Silent (below : List (LineEnding × Text)) : Prop :=
  ∀ line ∈ below, throughRegistration? line.2 = none

/-- Either no line below is a registration line, or there is a first one. -/
theorem silent_or_registered (below : List (LineEnding × Text)) :
    Silent below ∨ ∃ above lead content rest line tail, below = above ++ (lead, content) :: rest ∧
      Silent above ∧ throughRegistration? content = some (line, tail) := by
  induction below with
  | nil => exact .inl (by simp [Silent])
  | cons head below ih =>
      obtain ⟨lead, content⟩ := head
      cases hthrough : throughRegistration? content with
      | some found =>
          exact .inr ⟨[], lead, content, below, found.1, found.2, rfl, by simp [Silent], hthrough⟩
      | none =>
          rcases ih with hsilent | ⟨above, lead', content', rest, line, tail, rfl, hsilent, hline⟩
          · exact .inl (by simpa [Silent, hthrough] using hsilent)
          · exact .inr ⟨(lead, content) :: above, lead', content', rest, line, tail, rfl,
              by simpa [Silent, hthrough] using hsilent, hline⟩

/-! ### One line -/

theorem unbroken_registration : Unbroken registration := by
  decide

/-- Nothing is registered at a line-ending character. -/
theorem strip?_registration_of_endsLine {c : Char} (h : endsLine (some c) = true) (t : Text) :
    Text.strip? registration (c :: t) = none := by
  cases hstrip : Text.strip? registration (c :: t) with
  | none => rfl
  | some rest =>
      obtain rfl : c = 'a' := (List.cons.inj (Text.strip?_eq_some_iff.1 hstrip)).1
      exact absurd h (by decide)

theorem throughRegistration?_lf (t : Text) : throughRegistration? ('\n' :: t) = none := by
  rw [throughRegistration?, if_pos rfl, strip?_registration_of_endsLine rfl]
  rfl

theorem throughRegistration?_belowText (below : List (LineEnding × Text)) :
    throughRegistration? (Lines.belowText below) = none := by
  cases below with
  | nil => rfl
  | cons line below =>
      obtain ⟨ending, content⟩ := line
      cases ending with
      | lf => exact throughRegistration?_lf _
      | crlf =>
          have hcr : throughRegistration? ('\r' :: '\n' :: (content ++ Lines.belowText below)) = none := by
            rw [throughRegistration?, if_neg (by decide), throughRegistration?_lf,
              strip?_registration_of_endsLine rfl]
            rfl
          exact hcr

/-- Whether a line is a registration line does not depend on the lines below it. -/
theorem throughRegistration?_line {content : Text} (h : Unbroken content)
    (below : List (LineEnding × Text)) :
    throughRegistration? (content ++ Lines.belowText below)
      = (throughRegistration? content).map fun found => (found.1, found.2 ++ Lines.belowText below) := by
  induction content with
  | nil => exact throughRegistration?_belowText below
  | cons c content ih =>
      have hstrip := strip?_line unbroken_registration (c :: content) below
      rw [unbroken_cons] at h
      have hlf : c ≠ '\n' := by
        rintro rfl
        exact absurd h.1 (by decide)
      rw [List.cons_append] at hstrip ⊢
      rw [throughRegistration?, throughRegistration?, if_neg hlf, if_neg hlf, ih h.2, hstrip]
      cases throughRegistration? content with
      | some found => rfl
      | none => cases Text.strip? registration (c :: content) <;> rfl

/-! ### The nearest registration line -/

/-- The character that a search stands behind, within a line. -/
theorem endsLine_lastOr {before : Char} (hbefore : endsLine (some before) = false) {content : Text}
    (hcontent : Unbroken content) : endsLine (some (lastOr before content)) = false := by
  rw [lastOr]
  cases hlast : content.getLast? with
  | none => exact hbefore
  | some c => exact hcontent c (List.mem_of_getLast? hlast)

theorem lastOr_cons (before c : Char) (t : Text) : lastOr before (c :: t) = lastOr c t := by
  cases hlast : t.getLast? <;> simp [lastOr, List.getLast?_cons, hlast]

theorem lastOr_append (before : Char) (s t : Text) : lastOr before (s ++ t) = lastOr (lastOr before s) t := by
  induction s generalizing before with
  | nil => rfl
  | cons c s ih => rw [List.cons_append, lastOr_cons, lastOr_cons, ih]

theorem getLast?_or_eq_lastOr (before : Char) (t : Text) : t.getLast?.or (some before) = some (lastOr before t) := by
  cases hlast : t.getLast? <;> simp [lastOr, hlast]

/-- No line starts within a line. -/
theorem nextRegistration?_within {before : Char} (hbefore : endsLine (some before) = false)
    {content : Text} (hcontent : Unbroken content) (t : Text) :
    nextRegistration? before (content ++ t)
      = (nextRegistration? (lastOr before content) t).map fun found =>
        { found with gap := content ++ found.gap } := by
  induction content generalizing before with
  | nil => cases hnext : nextRegistration? before t <;> simp [lastOr, hnext]
  | cons c content ih =>
      rw [unbroken_cons] at hcontent
      have hstart : startsLine (some before) (some c) = false :=
        startsLine_of_withinLine ⟨before, rfl, hbefore⟩ _
      have hrest : nextRegistration? c (content ++ t)
          = (nextRegistration? (lastOr before (c :: content)) t).map fun found =>
            { found with gap := content ++ found.gap } := by
        rw [ih hcontent.1 hcontent.2, lastOr_cons]
      rw [List.cons_append, nextRegistration?, hstart]
      simp only [Bool.false_eq_true, if_false, hrest, Option.map_map]
      rfl

theorem nextRegistration?_ending (before : Char) (ending : LineEnding) (content : Text)
    (below : List (LineEnding × Text)) :
    nextRegistration? before (ending.text ++ (content ++ Lines.belowText below))
      = (nextRegistration? '\n' (content ++ Lines.belowText below)).map fun found =>
        { found with gap := ending.text ++ found.gap } := by
  have hbreak : ∀ (before c : Char) (t : Text), throughRegistration? (c :: t) = none →
      nextRegistration? before (c :: t) = (nextRegistration? c t).map (Registration.behind c) := by
    intro before c t hthrough
    rw [nextRegistration?, Registration.here?, hthrough]
    simp
  have hbelow : throughRegistration? (ending.text ++ (content ++ Lines.belowText below)) = none :=
    throughRegistration?_belowText ((ending, content) :: below)
  cases ending with
  | lf => exact hbreak before '\n' _ hbelow
  | crlf =>
      have hcr := hbreak before '\r' ('\n' :: (content ++ Lines.belowText below)) hbelow
      have hlf := hbreak '\r' '\n' (content ++ Lines.belowText below) (throughRegistration?_lf _)
      calc nextRegistration? before (LineEnding.crlf.text ++ (content ++ Lines.belowText below))
          = (nextRegistration? '\r' ('\n' :: (content ++ Lines.belowText below))).map
              (Registration.behind '\r') := hcr
        _ = ((nextRegistration? '\n' (content ++ Lines.belowText below)).map
              (Registration.behind '\n')).map (Registration.behind '\r') := by rw [hlf]
        _ = _ := by rw [Option.map_map]; rfl

/-- A line that starts a search is the found one or is passed over. -/
theorem nextRegistration?_line {content : Text} (hcontent : Unbroken content)
    (below : List (LineEnding × Text)) :
    nextRegistration? '\n' (content ++ Lines.belowText below)
      = match throughRegistration? content with
        | some found => some ⟨[], found.1, found.2 ++ Lines.belowText below⟩
        | none => (nextRegistration? (lastOr '\n' content) (Lines.belowText below)).map fun found =>
          { found with gap := content ++ found.gap } := by
  have hthrough := throughRegistration?_line hcontent below
  cases content with
  | nil => cases hnext : nextRegistration? '\n' (Lines.belowText below) <;> simp [throughRegistration?, lastOr, hnext]
  | cons c content =>
      rw [unbroken_cons] at hcontent
      rw [List.cons_append] at hthrough
      rw [List.cons_append, nextRegistration?, Registration.here?, hthrough]
      cases throughRegistration? (c :: content) with
      | some found => rfl
      | none =>
          simp only [Option.map_none, ite_self, nextRegistration?_within hcontent.1 hcontent.2, lastOr_cons,
            Option.map_map]
          rfl

/-- Below silent lines nothing is found. -/
theorem nextRegistration?_of_silent {below : List (LineEnding × Text)} (h : Silent below)
    (hbelow : Lines.UnbrokenBelow below) (before : Char) :
    nextRegistration? before (Lines.belowText below) = none := by
  induction below generalizing before with
  | nil => rfl
  | cons line below ih =>
      obtain ⟨lead, content⟩ := line
      simp only [Silent, List.forall_mem_cons] at h
      rw [Lines.unbrokenBelow_cons] at hbelow
      rw [Lines.belowText_cons, nextRegistration?_ending, nextRegistration?_line hbelow.1,
        h.1, ih h.2 hbelow.2]
      rfl

/-- The first registration line below is found. -/
theorem nextRegistration?_of_registered {above rest : List (LineEnding × Text)} {lead : LineEnding}
    {content line tail : Text} (habove : Silent above)
    (hthrough : throughRegistration? content = some (line, tail))
    (hbelow : Lines.UnbrokenBelow (above ++ (lead, content) :: rest)) (before : Char) :
    nextRegistration? before (Lines.belowText (above ++ (lead, content) :: rest))
      = some ⟨Lines.belowText above ++ lead.text, line, tail ++ Lines.belowText rest⟩ := by
  induction above generalizing before with
  | nil =>
      rw [List.nil_append, Lines.unbrokenBelow_cons] at hbelow
      rw [List.nil_append, Lines.belowText_cons, nextRegistration?_ending,
        nextRegistration?_line hbelow.1, hthrough]
      simp
  | cons head above ih =>
      obtain ⟨lead', content'⟩ := head
      simp only [Silent, List.forall_mem_cons] at habove
      rw [List.cons_append, Lines.unbrokenBelow_cons] at hbelow
      rw [List.cons_append, Lines.belowText_cons, nextRegistration?_ending,
        nextRegistration?_line hbelow.1, habove.1, ih habove.2 hbelow.2]
      simp

/-- Within a line no registration line starts at a lone carriage return. -/
theorem lastInLine?_eq_none {before : Char} (hbefore : endsLine (some before) = false) {content : Text}
    (hcontent : Unbroken content) (below : List (LineEnding × Text)) :
    lastInLine? before (content ++ Lines.belowText below) = none := by
  have hwithin : ∀ {before : Char}, endsLine (some before) = false → ∀ c,
      startsLine (some before) (some c) = false := fun hbefore c =>
    startsLine_of_withinLine ⟨_, rfl, hbefore⟩ _
  have hlf : ∀ (before : Char) (t : Text), startsLine (some before) (some '\n') = false →
      lastInLine? before ('\n' :: t) = none := by
    intro before t hstart
    rw [lastInLine?, if_pos rfl, hstart]
    rfl
  induction content generalizing before with
  | nil =>
      cases below with
      | nil => rfl
      | cons line below =>
          obtain ⟨lead, next⟩ := line
          cases lead with
          | lf => exact hlf before _ (hwithin hbefore _)
          | crlf =>
              have hcr : lastInLine? before ('\r' :: '\n' :: (next ++ Lines.belowText below)) = none := by
                rw [lastInLine?, if_neg (by decide), hlf '\r' _ rfl, hwithin hbefore]
                rfl
              exact hcr
  | cons c content ih =>
      rw [unbroken_cons] at hcontent
      rw [List.cons_append, lastInLine?, ih hcontent.1 hcontent.2, hwithin hbefore]
      simp

end CanvasExport.Rule
