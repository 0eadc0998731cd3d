/-
Module: CanvasExport.Proofs.Text.Numeral
Layer: Proofs
Purpose: Numerals and the values of digits. A run of digits without a needless zero is the numeral of its value, so
  each number is written in one way; and of such runs the longer one is the greater, those of one length being
  in the order of their texts.
Main exports: Text.NoNeedlessZero, Text.digitsValue_numeral, Text.numeral_digitsValue, Text.noNeedlessZero_numeral,
  Text.digitsValue_lt_iff_precedes, Text.digitsValue_lt_of_length_lt, Text.precedes_iff_lt
-/
import CanvasExport.Proofs.Text.Alphabet
import CanvasExport.Text.Order
import Mathlib.Algebra.Group.Nat.Defs

namespace CanvasExport.Text

/-- A text starts with a zero only if that is all of it. -/
def NoNeedlessZero (digits : Text) : Prop :=
  digits.head? = some '0' → digits = ['0']

theorem digitValue_lt {c : Char} (h : c.isDigit = true) : digitValue c < 10 := by
  have hbounds := Char.isDigit_iff_toNat.1 h
  simp only [Char.reduceToNat] at hbounds
  simp only [digitValue, Char.reduceToNat]
  omega

theorem digitChar_digitValue {c : Char} (h : c.isDigit = true) : Nat.digitChar (digitValue c) = c := by
  have hbounds := Char.isDigit_iff_toNat.1 h
  simp only [Char.reduceToNat] at hbounds
  apply Char.toNat_inj.1
  rw [Nat.toNat_digitChar_of_lt_ten (digitValue_lt h)]
  simp only [digitValue, Char.reduceToNat]
  omega

/-- A digit other than zero has a value above zero. -/
theorem digitValue_pos {c : Char} (h : c.isDigit = true) (hne : c ≠ '0') : 0 < digitValue c := by
  have hbounds := Char.isDigit_iff_toNat.1 h
  have hval : c.toNat ≠ '0'.toNat := fun heq => hne (Char.toNat_inj.1 heq)
  simp only [Char.reduceToNat] at hbounds hval
  simp only [digitValue, Char.reduceToNat]
  omega

theorem digitsValue_eq_ofDigitChars (digits : Text) : digitsValue digits = Nat.ofDigitChars 10 digits 0 := by
  simp only [digitsValue, Nat.ofDigitChars, digitValue, Nat.mul_comm]

theorem digitsValue_numeral (n : Nat) : digitsValue (numeral n) = n := by
  rw [digitsValue_eq_ofDigitChars, numeral, Nat.ofDigitChars_toDigits (by decide) (by decide)]

/-! ### The numeral of a value -/

/-- A number that is not zero, followed by further digits. -/
theorem numeral_append {n : Nat} {digits : Text} (hn : 0 < n) (hdigits : WrittenIn Char.isDigit digits) :
    numeral n ++ digits = numeral (Nat.ofDigitChars 10 digits n) := by
  induction digits generalizing n with
  | nil => simp [Nat.ofDigitChars]
  | cons c digits ih =>
      obtain ⟨hc, hdigits⟩ := WrittenIn.cons_iff.1 hdigits
      have hstep : numeral n ++ [c] = numeral (10 * n + digitValue c) := by
        have hone := @Nat.toDigits_append_toDigits 10 n (digitValue c) (by decide) hn (digitValue_lt hc)
        rwa [Nat.toDigits_of_lt_base (digitValue_lt hc), digitChar_digitValue hc] at hone
      calc
        numeral n ++ c :: digits = (numeral n ++ [c]) ++ digits := by simp
        _ = numeral (10 * n + digitValue c) ++ digits := by rw [hstep]
        _ = numeral (Nat.ofDigitChars 10 digits (10 * n + digitValue c)) := ih (by omega) hdigits
        _ = numeral (Nat.ofDigitChars 10 (c :: digits) n) := by rw [Nat.ofDigitChars_cons, digitValue]

/-- Digits without a needless zero are the numeral of their value. -/
theorem numeral_digitsValue {digits : Text} (hdigits : WrittenIn Char.isDigit digits) (hne : digits ≠ [])
    (hzero : NoNeedlessZero digits) : numeral (digitsValue digits) = digits := by
  cases digits with
  | nil => exact absurd rfl hne
  | cons c rest =>
      by_cases hc : c = '0'
      · subst hc
        rw [hzero rfl]
        decide
      · obtain ⟨hdigit, hrest⟩ := WrittenIn.cons_iff.1 hdigits
        have hhead : numeral (digitValue c) = [c] := by
          rw [numeral, Nat.toDigits_of_lt_base (digitValue_lt hdigit), digitChar_digitValue hdigit]
        rw [digitsValue_eq_ofDigitChars, Nat.ofDigitChars_cons, Nat.mul_zero, Nat.zero_add,
          ← digitValue, ← numeral_append (digitValue_pos hdigit hc) hrest, hhead, List.singleton_append]

theorem numeral_ne_nil (n : Nat) : numeral n ≠ [] :=
  Nat.toDigits_ne_nil

theorem noNeedlessZero_numeral (n : Nat) : NoNeedlessZero (numeral n) := by
  induction n using Nat.strongRecOn with
  | _ n ih =>
      by_cases hn : n < 10
      · rw [numeral, Nat.toDigits_of_lt_base hn]
        intro hhead
        simp_all
      · have hstep : numeral n = numeral (n / 10) ++ [(n % 10).digitChar] :=
          Nat.toDigits_of_base_le (by decide) (by omega)
        intro hhead
        rw [hstep, List.head?_append] at hhead
        -- The first digits would be those of zero, but they are a number above zero.
        have hfirst : (numeral (n / 10)).head? = some '0' := by
          cases hcases : numeral (n / 10) with
          | nil => exact absurd hcases (numeral_ne_nil _)
          | cons c digits => simpa [hcases] using hhead
        have hvalue := congrArg digitsValue (ih (n / 10) (by omega) hfirst)
        rw [digitsValue_numeral] at hvalue
        have hzero : digitsValue ['0'] = 0 := by decide
        omega

/-! ### The order of values -/

theorem ofDigitChars_eq (digits : Text) (n : Nat) :
    Nat.ofDigitChars 10 digits n = n * 10 ^ digits.length + digitsValue digits := by
  induction digits generalizing n with
  | nil => simp [Nat.ofDigitChars, digitsValue]
  | cons c digits ih =>
      rw [digitsValue_eq_ofDigitChars, Nat.ofDigitChars_cons, Nat.ofDigitChars_cons, ih, ih (10 * 0 + _),
        List.length_cons, Nat.pow_succ]
      grind

theorem digitsValue_cons (c : Char) (digits : Text) :
    digitsValue (c :: digits) = digitValue c * 10 ^ digits.length + digitsValue digits := by
  rw [digitsValue_eq_ofDigitChars, Nat.ofDigitChars_cons, Nat.mul_zero, Nat.zero_add, ofDigitChars_eq, digitValue]

theorem digitsValue_lt_pow {digits : Text} (h : WrittenIn Char.isDigit digits) :
    digitsValue digits < 10 ^ digits.length := by
  induction digits with
  | nil => decide
  | cons c digits ih =>
      obtain ⟨hc, hdigits⟩ := WrittenIn.cons_iff.1 h
      have hvalue := Nat.mul_le_mul_right (10 ^ digits.length) (Nat.le_of_lt_succ (digitValue_lt hc))
      have hrest := ih hdigits
      rw [digitsValue_cons, List.length_cons, Nat.pow_succ]
      omega

/-- Of two sums with different leading digits the greater is the one with the greater leading digit. -/
theorem leading_lt_iff {v w x y power : Nat} (hx : x < power) (hy : y < power) (hne : v ≠ w) :
    v * power + x < w * power + y ↔ v < w := by
  rcases Nat.lt_or_gt_of_ne hne with hlt | hgt
  · have hscaled := Nat.mul_le_mul_right power (Nat.succ_le_of_lt hlt)
    rw [Nat.succ_mul] at hscaled
    omega
  · have hscaled := Nat.mul_le_mul_right power (Nat.succ_le_of_lt hgt)
    rw [Nat.succ_mul] at hscaled
    omega

/-- Of runs of one length the greater is the one that comes later as a text. -/
theorem digitsValue_lt_iff_precedes {a b : Text} (ha : WrittenIn Char.isDigit a) (hb : WrittenIn Char.isDigit b)
    (hlength : a.length = b.length) : digitsValue a < digitsValue b ↔ precedes a b = true := by
  induction a generalizing b with
  | nil =>
      obtain rfl := List.eq_nil_of_length_eq_zero hlength.symm
      simp [precedes]
  | cons c a ih =>
      cases b with
      | nil => contradiction
      | cons d b =>
          obtain ⟨hc, haRest⟩ := WrittenIn.cons_iff.1 ha
          obtain ⟨hd, hbRest⟩ := WrittenIn.cons_iff.1 hb
          have hlengths : a.length = b.length := by simpa using hlength
          have halow := digitsValue_lt_pow haRest
          have hblow := digitsValue_lt_pow hbRest
          rw [digitsValue_cons, digitsValue_cons, hlengths, precedes]
          rw [hlengths] at halow
          by_cases hcd : c = d
          · subst hcd
            rw [if_pos rfl, ← ih haRest hbRest hlengths]
            omega
          · have hcb := Char.isDigit_iff_toNat.1 hc
            have hdb := Char.isDigit_iff_toNat.1 hd
            have hne : c.toNat ≠ d.toNat := fun heq => hcd (Char.toNat_inj.1 heq)
            rw [if_neg hcd, decide_eq_true_iff]
            simp only [Char.reduceToNat] at hcb hdb
            have hvalues : digitValue c < digitValue d ↔ c.toNat < d.toNat := by
              simp only [digitValue, Char.reduceToNat]
              omega
            have hvalue : digitValue c ≠ digitValue d := by
              simp only [digitValue, Char.reduceToNat]
              omega
            rw [leading_lt_iff halow hblow hvalue, hvalues]

/-- A longer run that does not start with a zero is the greater. -/
theorem digitsValue_lt_of_length_lt {a b : Text} (ha : WrittenIn Char.isDigit a) (hb : WrittenIn Char.isDigit b)
    (hzero : b.head? ≠ some '0') (h : a.length < b.length) : digitsValue a < digitsValue b := by
  cases b with
  | nil => simp at h
  | cons c b =>
      obtain ⟨hc, _⟩ := WrittenIn.cons_iff.1 hb
      have hpos := digitValue_pos hc fun heq => hzero (by rw [heq]; rfl)
      have hfit : 10 ^ a.length ≤ 10 ^ b.length :=
        Nat.pow_le_pow_right (by decide) (Nat.le_of_lt_succ (by simpa using h))
      have hscaled := Nat.mul_le_mul_right (10 ^ b.length) hpos
      have hlow := digitsValue_lt_pow ha
      rw [digitsValue_cons]
      omega

/-- Leading zeros add nothing. -/
theorem digitsValue_dropWhile_zero (digits : Text) :
    digitsValue (digits.dropWhile (· == '0')) = digitsValue digits := by
  induction digits with
  | nil => rfl
  | cons c digits ih =>
      by_cases hc : c = '0'
      · subst hc
        rw [List.dropWhile_cons_of_pos (by decide), ih, digitsValue_cons]
        simp [digitValue]
      · rw [List.dropWhile_cons_of_neg (by simpa using hc)]

theorem head?_dropWhile_zero (t : Text) : (t.dropWhile (· == '0')).head? ≠ some '0' := by
  intro h
  have hends : Ends (· == '0') (t.dropWhile (· == '0')) := ends_dropWhile t
  simpa using hends '0' h

/-- The order of texts is that of lists of characters. -/
theorem precedes_iff_lt {s t : Text} : precedes s t = true ↔ s < t := by
  induction s generalizing t with
  | nil => cases t <;> simp [precedes]
  | cons c s ih =>
      cases t with
      | nil => simp [precedes]
      | cons d t =>
          rw [List.cons_lt_cons_iff, precedes]
          by_cases hcd : c = d
          · subst hcd
            simp [ih]
          · have horder : c < d ↔ c.toNat < d.toNat := Iff.rfl
            simp [hcd, horder]

end CanvasExport.Text
