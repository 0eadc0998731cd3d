/-
Module: CanvasExport.Proofs.Version.Order
Layer: Proofs
Purpose: The order of versions as rules. Numbers come first; a pre-release comes before its release; identifiers
  are ordered one by one, numbers by value and before names, names by their characters; build metadata is counted
  last, and a version without it comes before those with it. On well-formed versions the comparison decides
  exactly these rules.
Main exports: Version.IdentifierBefore, Version.Before, Version.compare_eq_lt_iff
-/
import CanvasExport.Proofs.Version.Grammar

namespace CanvasExport.Version

/-- One identifier comes before another. Leading zeros, which only build metadata can have, count last. -/
inductive IdentifierBefore (a b : Text) : Prop
  | values (ha : isNumeric a = true) (hb : isNumeric b = true) (h : Text.digitsValue a < Text.digitsValue b)
  | zeros (ha : isNumeric a = true) (hb : isNumeric b = true) (hvalue : Text.digitsValue a = Text.digitsValue b)
      (h : a.length < b.length)
  | kinds (ha : isNumeric a = true) (hb : isNumeric b = false)
  | names (ha : isNumeric a = false) (hb : isNumeric b = false) (h : a < b)

/-- The three numbers, the most important first. -/
def numbers (v : Version) : List Nat :=
  [v.major, v.minor, v.patch]

/-- One version comes before another. -/
inductive Before (a b : Version) : Prop
  | numbers (h : a.numbers < b.numbers)
  | release (hnumbers : a.numbers = b.numbers) (ha : a.pre ≠ []) (hb : b.pre = [])
  | pre (hnumbers : a.numbers = b.numbers) (ha : a.pre ≠ []) (h : List.Lex IdentifierBefore a.pre b.pre)
  | build (hnumbers : a.numbers = b.numbers) (hpre : a.pre = b.pre) (h : List.Lex IdentifierBefore a.build b.build)

/-! ### Identifiers -/

theorem isNumeric_iff {identifier : Text} : isNumeric identifier = true ↔ WrittenIn Char.isDigit identifier :=
  List.all_eq_true

theorem compareTexts_eq_eq_iff {a b : Text} : compareTexts a b = .eq ↔ a = b := by
  unfold compareTexts
  split
  · simp [*]
  · split <;> simp [*]

theorem compareTexts_eq_lt_iff {a b : Text} : compareTexts a b = .lt ↔ a < b := by
  rw [← Text.precedes_iff_lt]
  unfold compareTexts
  split
  · rename_i heq
    simp [heq, Text.precedes_irrefl]
  · split <;> simp [*]

/-- Runs of digits by their lengths and then as texts, if no longer one starts with a zero: this is by value. -/
theorem compare_length_then_compareTexts {a b : Text} (ha : WrittenIn Char.isDigit a) (hb : WrittenIn Char.isDigit b)
    (hab : a.length < b.length → b.head? ≠ some '0') (hba : b.length < a.length → a.head? ≠ some '0') :
    (Ord.compare a.length b.length).then (compareTexts a b)
      = Ord.compare (Text.digitsValue a) (Text.digitsValue b) := by
  -- A longer run has the greater value as it does not start with a zero; runs of one length are ordered as texts.
  rcases Nat.lt_trichotomy a.length b.length with hlt | heq | hgt
  · have hvalue := Text.digitsValue_lt_of_length_lt ha hb (hab hlt) hlt
    rw [Nat.compare_eq_lt.2 hlt, Nat.compare_eq_lt.2 hvalue]
    rfl
  · rw [Nat.compare_eq_eq.2 heq, Ordering.eq_then]
    unfold compareTexts
    split
    · rename_i hsame
      rw [hsame, Nat.compare_eq_eq.2 rfl]
    · rename_i hne
      split
      · rename_i hbefore
        rw [Nat.compare_eq_lt.2 ((Text.digitsValue_lt_iff_precedes ha hb heq).2 hbefore)]
      · rename_i hbefore
        have hafter := Text.precedes_of_not_precedes hbefore hne
        rw [Nat.compare_eq_gt.2 ((Text.digitsValue_lt_iff_precedes hb ha heq.symm).2 hafter)]
  · have hvalue := Text.digitsValue_lt_of_length_lt hb ha (hba hgt) hgt
    rw [Nat.compare_eq_gt.2 hgt, Nat.compare_eq_gt.2 hvalue]
    rfl

/-- An identifier without a needless zero that is longer than another starts with another digit than zero. -/
theorem head?_ne_zero {a b : Text} (ha : a ≠ []) (hb : Text.NoNeedlessZero b) (h : a.length < b.length) :
    b.head? ≠ some '0' := by
  intro hhead
  have hpos := List.length_pos_iff.2 ha
  rw [hb hhead] at h
  simp only [List.length_singleton] at h
  omega

section Identifiers

variable {a b : Text} (ha : IsIdentifier a ∧ (isNumeric a = true → Text.NoNeedlessZero a))
  (hb : IsIdentifier b ∧ (isNumeric b = true → Text.NoNeedlessZero b))

include ha hb

theorem comparePre_of_isNumeric (hna : isNumeric a = true) (hnb : isNumeric b = true) :
    comparePre a b = Ord.compare (Text.digitsValue a) (Text.digitsValue b) := by
  simp only [comparePre, hna, hnb]
  exact compare_length_then_compareTexts (isNumeric_iff.1 hna) (isNumeric_iff.1 hnb)
    (head?_ne_zero ha.1.1 (hb.2 hnb)) (head?_ne_zero hb.1.1 (ha.2 hna))

/-- Numbers of a pre-release have one written form. -/
theorem eq_of_digitsValue_eq (hna : isNumeric a = true) (hnb : isNumeric b = true)
    (h : Text.digitsValue a = Text.digitsValue b) : a = b := by
  rw [← Text.numeral_digitsValue (isNumeric_iff.1 hna) ha.1.1 (ha.2 hna), h,
    Text.numeral_digitsValue (isNumeric_iff.1 hnb) hb.1.1 (hb.2 hnb)]

theorem comparePre_eq_eq_iff : comparePre a b = .eq ↔ a = b := by
  cases hna : isNumeric a with
  | true =>
      cases hnb : isNumeric b with
      | true =>
          rw [comparePre_of_isNumeric ha hb hna hnb, Nat.compare_eq_eq]
          exact ⟨eq_of_digitsValue_eq ha hb hna hnb, fun h => by rw [h]⟩
      | false =>
          simp only [comparePre, hna, hnb]
          grind
  | false =>
      cases hnb : isNumeric b with
      | true =>
          simp only [comparePre, hna, hnb]
          grind
      | false => simp only [comparePre, hna, hnb, compareTexts_eq_eq_iff]

theorem comparePre_eq_lt_iff : comparePre a b = .lt ↔ IdentifierBefore a b := by
  constructor
  · intro h
    cases hna : isNumeric a with
    | true =>
        cases hnb : isNumeric b with
        | true =>
            rw [comparePre_of_isNumeric ha hb hna hnb, Nat.compare_eq_lt] at h
            exact .values hna hnb h
        | false => exact .kinds hna hnb
    | false =>
        cases hnb : isNumeric b with
        | true => simp [comparePre, hna, hnb] at h
        | false =>
            simp only [comparePre, hna, hnb, compareTexts_eq_lt_iff] at h
            exact .names hna hnb h
  · rintro (⟨hna, hnb, h⟩ | ⟨hna, hnb, hvalue, h⟩ | ⟨hna, hnb⟩ | ⟨hna, hnb, h⟩)
    · rwa [comparePre_of_isNumeric ha hb hna hnb, Nat.compare_eq_lt]
    · rw [eq_of_digitsValue_eq ha hb hna hnb hvalue] at h
      exact absurd h (Nat.lt_irrefl _)
    · simp [comparePre, hna, hnb]
    · simpa only [comparePre, hna, hnb, compareTexts_eq_lt_iff] using h

end Identifiers

theorem compareBuild_of_isNumeric {a b : Text} (ha : isNumeric a = true) (hb : isNumeric b = true) :
    compareBuild a b = (Ord.compare (Text.digitsValue a) (Text.digitsValue b)).then
      (Ord.compare a.length b.length) := by
  have hvalues := compare_length_then_compareTexts
    (writtenIn_dropWhile (p := (· == '0')) (isNumeric_iff.1 ha)) (writtenIn_dropWhile (isNumeric_iff.1 hb))
    (fun _ => Text.head?_dropWhile_zero b) (fun _ => Text.head?_dropWhile_zero a)
  rw [Text.digitsValue_dropWhile_zero, Text.digitsValue_dropWhile_zero] at hvalues
  simp only [compareBuild, ha, hb, ← Ordering.then_assoc, hvalues]

/-- Digits of one length and one value are the same digits. -/
theorem eq_of_length_eq_of_digitsValue_eq {a b : Text} (ha : WrittenIn Char.isDigit a) (hb : WrittenIn Char.isDigit b)
    (hlength : a.length = b.length) (h : Text.digitsValue a = Text.digitsValue b) : a = b := by
  refine Classical.byContradiction fun hne => ?_
  have hbefore : ¬ Text.precedes a b = true := fun hlt =>
    absurd ((Text.digitsValue_lt_iff_precedes ha hb hlength).2 hlt) (by omega)
  have hafter := Text.precedes_of_not_precedes hbefore hne
  exact absurd ((Text.digitsValue_lt_iff_precedes hb ha hlength.symm).2 hafter) (by omega)

theorem compareBuild_eq_eq_iff {a b : Text} : compareBuild a b = .eq ↔ a = b := by
  cases ha : isNumeric a with
  | true =>
      cases hb : isNumeric b with
      | true =>
          rw [compareBuild_of_isNumeric ha hb, Ordering.then_eq_eq, Nat.compare_eq_eq, Nat.compare_eq_eq]
          constructor
          · rintro ⟨hvalue, hlength⟩
            exact eq_of_length_eq_of_digitsValue_eq (isNumeric_iff.1 ha) (isNumeric_iff.1 hb) hlength hvalue
          · rintro rfl
            exact ⟨rfl, rfl⟩
      | false =>
          simp only [compareBuild, ha, hb]
          grind
  | false =>
      cases hb : isNumeric b with
      | true =>
          simp only [compareBuild, ha, hb]
          grind
      | false => simp only [compareBuild, ha, hb, compareTexts_eq_eq_iff]

theorem compareBuild_eq_lt_iff {a b : Text} : compareBuild a b = .lt ↔ IdentifierBefore a b := by
  constructor
  · intro h
    cases ha : isNumeric a with
    | true =>
        cases hb : isNumeric b with
        | true =>
            rw [compareBuild_of_isNumeric ha hb, Ordering.then_eq_lt, Nat.compare_eq_lt, Nat.compare_eq_eq,
              Nat.compare_eq_lt] at h
            rcases h with h | ⟨hvalue, h⟩
            · exact .values ha hb h
            · exact .zeros ha hb hvalue h
        | false => exact .kinds ha hb
    | false =>
        cases hb : isNumeric b with
        | true => simp [compareBuild, ha, hb] at h
        | false =>
            simp only [compareBuild, ha, hb, compareTexts_eq_lt_iff] at h
            exact .names ha hb h
  · rintro (⟨ha, hb, h⟩ | ⟨ha, hb, hvalue, h⟩ | ⟨ha, hb⟩ | ⟨ha, hb, h⟩)
    · rw [compareBuild_of_isNumeric ha hb, Nat.compare_eq_lt.2 h]
      rfl
    · rw [compareBuild_of_isNumeric ha hb, Nat.compare_eq_eq.2 hvalue, Nat.compare_eq_lt.2 h]
      rfl
    · simp [compareBuild, ha, hb]
    · simpa only [compareBuild, ha, hb, compareTexts_eq_lt_iff] using h

/-! ### Lists of identifiers -/

section Lists

variable {order : Text → Text → Ordering} {before : Text → Text → Prop} {as bs : List Text}

theorem compareIdentifiers_eq_eq_iff (heq : ∀ a ∈ as, ∀ b ∈ bs, (order a b = .eq ↔ a = b)) :
    compareIdentifiers order as bs = .eq ↔ as = bs := by
  induction as generalizing bs with
  | nil => cases bs <;> simp [compareIdentifiers]
  | cons a as ih =>
      cases bs with
      | nil => simp [compareIdentifiers]
      | cons b bs =>
          rw [compareIdentifiers, Ordering.then_eq_eq, heq a List.mem_cons_self b List.mem_cons_self,
            ih fun a ha b hb => heq a (List.mem_cons_of_mem _ ha) b (List.mem_cons_of_mem _ hb), List.cons.injEq]

theorem compareIdentifiers_eq_lt_iff (heq : ∀ a ∈ as, ∀ b ∈ bs, (order a b = .eq ↔ a = b))
    (hlt : ∀ a ∈ as, ∀ b ∈ bs, (order a b = .lt ↔ before a b)) :
    compareIdentifiers order as bs = .lt ↔ List.Lex before as bs := by
  induction as generalizing bs with
  | nil =>
      cases bs with
      | nil => simp [compareIdentifiers]
      | cons b bs => exact iff_of_true rfl .nil
  | cons a as ih =>
      cases bs with
      | nil => simp [compareIdentifiers]
      | cons b bs =>
          have hrest := ih (fun a ha b hb => heq a (List.mem_cons_of_mem _ ha) b (List.mem_cons_of_mem _ hb))
            (fun a ha b hb => hlt a (List.mem_cons_of_mem _ ha) b (List.mem_cons_of_mem _ hb))
          rw [compareIdentifiers, Ordering.then_eq_lt, heq a List.mem_cons_self b List.mem_cons_self,
            hlt a List.mem_cons_self b List.mem_cons_self, hrest]
          constructor
          · rintro (h | ⟨rfl, h⟩)
            · exact .rel h
            · exact .cons h
          · rintro (_ | h | h)
            · exact .inl h
            · exact .inr ⟨rfl, h⟩

end Lists

/-! ### Versions -/

section Versions

variable {a b : Version} (ha : a.WellFormed) (hb : b.WellFormed)

include ha hb

theorem comparePreRelease_eq_eq_iff : comparePreRelease a.pre b.pre = .eq ↔ a.pre = b.pre := by
  have hlists := @compareIdentifiers_eq_eq_iff comparePre a.pre b.pre
    fun x hx y hy => comparePre_eq_eq_iff (ha.pre x hx) (hb.pre y hy)
  cases hapre : a.pre <;> cases hbpre : b.pre <;> simp_all [comparePreRelease]

theorem comparePreRelease_eq_lt_iff :
    comparePreRelease a.pre b.pre = .lt ↔
      a.pre ≠ [] ∧ (b.pre = [] ∨ List.Lex IdentifierBefore a.pre b.pre) := by
  have hlists := @compareIdentifiers_eq_lt_iff comparePre IdentifierBefore a.pre b.pre
    (fun x hx y hy => comparePre_eq_eq_iff (ha.pre x hx) (hb.pre y hy))
    (fun x hx y hy => comparePre_eq_lt_iff (ha.pre x hx) (hb.pre y hy))
  cases hapre : a.pre <;> cases hbpre : b.pre <;> simp_all [comparePreRelease]

omit ha hb in
theorem compare_numbers_eq_lt_iff (a b : Version) (rest : Ordering) :
    ((Ord.compare a.major b.major).then ((Ord.compare a.minor b.minor).then
        ((Ord.compare a.patch b.patch).then rest))) = .lt ↔
      a.numbers < b.numbers ∨ a.numbers = b.numbers ∧ rest = .lt := by
  simp only [Ordering.then_eq_lt, Nat.compare_eq_lt, Nat.compare_eq_eq, numbers, List.cons_lt_cons_iff, List.cons.injEq]
  grind

/-- On well-formed versions the comparison decides the rules of the order. -/
theorem compare_eq_lt_iff : a.compare b = .lt ↔ a.Before b := by
  have hbuild := @compareIdentifiers_eq_lt_iff compareBuild IdentifierBefore a.build b.build
    (fun _ _ _ _ => compareBuild_eq_eq_iff) (fun _ _ _ _ => compareBuild_eq_lt_iff)
  rw [compare, compare_numbers_eq_lt_iff, Ordering.then_eq_lt, comparePreRelease_eq_lt_iff ha hb,
    comparePreRelease_eq_eq_iff ha hb, hbuild]
  constructor
  · rintro (h | ⟨hnumbers, ⟨hpre, hrelease | h⟩ | ⟨hpre, h⟩⟩)
    · exact .numbers h
    · exact .release hnumbers hpre hrelease
    · exact .pre hnumbers hpre h
    · exact .build hnumbers hpre h
  · rintro (h | ⟨hnumbers, hpre, hrelease⟩ | ⟨hnumbers, hpre, h⟩ | ⟨hnumbers, hpre, h⟩)
    · exact .inl h
    · exact .inr ⟨hnumbers, .inl ⟨hpre, .inl hrelease⟩⟩
    · exact .inr ⟨hnumbers, .inl ⟨hpre, .inr h⟩⟩
    · exact .inr ⟨hnumbers, .inr ⟨hpre, h⟩⟩

end Versions

end CanvasExport.Version
