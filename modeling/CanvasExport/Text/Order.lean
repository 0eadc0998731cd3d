/-
Module: CanvasExport.Text.Order
Layer: Text
Purpose: The order of texts: by the first character that differs, and a text comes before those that continue
  it. Characters are ordered by code point, which is also the order of their UTF-8 bytes.
Main exports: Text.precedes, Text.precedes_irrefl, Text.precedes_trans, Text.precedes_of_not_precedes
-/
import CanvasExport.Text.Basic

namespace CanvasExport.Text

/-- Whether the first text comes before the second. -/
def precedes : Text → Text → Bool
  | _, [] => false
  | [], _ :: _ => true
  | a :: s, b :: t => if a = b then precedes s t else a.toNat < b.toNat

theorem precedes_irrefl (t : Text) : precedes t t = false := by
  induction t with
  | nil => rfl
  | cons c t ih => simpa [precedes] using ih

theorem precedes_trans {s t u : Text} (hst : precedes s t = true) (htu : precedes t u = true) :
    precedes s u = true := by
  induction t generalizing s u with
  | nil => cases s <;> simp [precedes] at hst
  | cons b t ih =>
    cases u with
    | nil => simp [precedes] at htu
    | cons c u =>
      cases s with
      | nil => rfl
      | cons a s =>
        by_cases hab : a = b
        · by_cases hbc : b = c
          · subst hab
            subst hbc
            simp only [precedes, if_true] at hst htu ⊢
            exact ih hst htu
          · subst hab
            simpa [precedes, hbc] using htu
        · by_cases hbc : b = c
          · subst hbc
            simpa [precedes, hab] using hst
          · have hlow : a.toNat < b.toNat := by simpa [precedes, hab] using hst
            have hhigh : b.toNat < c.toNat := by simpa [precedes, hbc] using htu
            have hac : a ≠ c := by
              rintro rfl
              omega
            simpa [precedes, hac] using Nat.lt_trans hlow hhigh

/-- Of two different texts one comes before the other. -/
theorem precedes_of_not_precedes {s t : Text} (h : ¬ precedes s t = true) (hne : s ≠ t) :
    precedes t s = true := by
  induction s generalizing t with
  | nil =>
    cases t with
    | nil => exact absurd rfl hne
    | cons b t => exact absurd rfl h
  | cons a s ih =>
    cases t with
    | nil => rfl
    | cons b t =>
      by_cases hab : a = b
      · subst hab
        have hrest : s ≠ t := fun heq => hne (by rw [heq])
        simp only [precedes, if_true] at h ⊢
        exact ih h hrest
      · have hle : b.toNat ≤ a.toNat := by simpa [precedes, hab] using h
        have hval : b.toNat ≠ a.toNat := fun heq => hab (Char.toNat_inj.1 heq.symm)
        have hlt : b.toNat < a.toNat := Nat.lt_of_le_of_ne hle hval
        simpa [precedes, Ne.symm hab] using hlt

end CanvasExport.Text
