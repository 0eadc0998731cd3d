/-
Module: CanvasExport.Proofs.Text.Alphabet
Layer: Proofs
Purpose: Texts by the characters that they are written in. Whether a needle can reach into a name, a color or a
  number depends on nothing else about it, so these facts are all that the rules need to know of them.
Main exports: WrittenIn, WrittenIn.not_mem, Ends, takeWhile_append_of_ends, identifierChar, argumentChar, colorChar,
  writtenIn_of_isIdentifier, writtenIn_of_isColorKey, writtenIn_numeral
-/
import CanvasExport.Palette.Basic
import CanvasExport.Proofs.Text.Lines

namespace CanvasExport

/-- A text of characters from the alphabet only. -/
def WrittenIn (alphabet : Char → Bool) (t : Text) : Prop :=
  ∀ c ∈ t, alphabet c = true

namespace WrittenIn

variable {alphabet other : Char → Bool} {s t : Text}

@[simp] theorem nil : WrittenIn alphabet [] := by
  simp [WrittenIn]

@[simp] theorem cons_iff {c : Char} : WrittenIn alphabet (c :: t) ↔ alphabet c = true ∧ WrittenIn alphabet t := by
  simp [WrittenIn]

@[simp] theorem append_iff : WrittenIn alphabet (s ++ t) ↔ WrittenIn alphabet s ∧ WrittenIn alphabet t := by
  simp [WrittenIn, or_imp, forall_and]

theorem append (hs : WrittenIn alphabet s) (ht : WrittenIn alphabet t) : WrittenIn alphabet (s ++ t) :=
  append_iff.2 ⟨hs, ht⟩

instance (alphabet : Char → Bool) (t : Text) : Decidable (WrittenIn alphabet t) :=
  List.decidableBAll (fun c => alphabet c = true) t

/-- A character from outside the alphabet does not occur. -/
theorem not_mem (h : WrittenIn alphabet t) {c : Char} (hc : alphabet c = false) : c ∉ t := by
  intro hmem
  rw [h c hmem] at hc
  contradiction

theorem mono (h : WrittenIn alphabet t) (hle : ∀ c, alphabet c = true → other c = true) :
    WrittenIn other t :=
  fun c hmem => hle c (h c hmem)

/-- A text without a character is written in all others. -/
theorem of_not_mem {c : Char} (h : c ∉ t) : WrittenIn (· != c) t :=
  fun _ hmem => bne_iff_ne.2 fun heq => h (heq ▸ hmem)

/-- An alphabet without line-ending characters writes no line break. -/
theorem unbroken (h : WrittenIn alphabet t) (hlf : alphabet '\n' = false) (hcr : alphabet '\r' = false) :
    Unbroken t := by
  intro c hmem
  have hn : c ≠ '\n' := fun heq => h.not_mem hlf (heq ▸ hmem)
  have hr : c ≠ '\r' := fun heq => h.not_mem hcr (heq ▸ hmem)
  simp [endsLine, hn, hr]

end WrittenIn

/-- A text that does not start with a character of the alphabet. -/
def Ends (alphabet : Char → Bool) (t : Text) : Prop :=
  ∀ c ∈ t.head?, alphabet c = false

section Runs

variable {alphabet : Char → Bool}

@[simp] theorem ends_nil : Ends alphabet [] := by
  simp [Ends]

@[simp] theorem ends_cons {c : Char} {t : Text} : Ends alphabet (c :: t) ↔ alphabet c = false := by
  simp [Ends]

theorem writtenIn_takeWhile (t : Text) : WrittenIn alphabet (t.takeWhile alphabet) :=
  fun c hmem => List.all_eq_true.1 List.all_takeWhile c hmem

theorem writtenIn_dropWhile {p : Char → Bool} {t : Text} (h : WrittenIn alphabet t) :
    WrittenIn alphabet (t.dropWhile p) :=
  fun c hmem => h c ((List.dropWhile_sublist p).mem hmem)

theorem ends_dropWhile (t : Text) : Ends alphabet (t.dropWhile alphabet) := by
  induction t with
  | nil => exact ends_nil
  | cons c t ih =>
      by_cases hc : alphabet c = true
      · rwa [List.dropWhile_cons_of_pos hc]
      · rw [List.dropWhile_cons_of_neg hc]
        exact ends_cons.2 (by simpa using hc)

/-- The run at the head of a text is all of a written part that the alphabet does not continue. -/
theorem takeWhile_append_of_ends {run rest : Text} (hrun : WrittenIn alphabet run) (hrest : Ends alphabet rest) :
    (run ++ rest).takeWhile alphabet = run := by
  rw [List.takeWhile_append_of_pos hrun]
  cases rest with
  | nil => simp
  | cons c rest => simp [ends_cons.1 hrest]

theorem drop_takeWhile_length (t : Text) : t.drop (t.takeWhile alphabet).length = t.dropWhile alphabet := by
  calc
    t.drop (t.takeWhile alphabet).length
        = (t.takeWhile alphabet ++ t.dropWhile alphabet).drop (t.takeWhile alphabet).length := by
          rw [List.takeWhile_append_dropWhile]
    _ = t.dropWhile alphabet := List.drop_left

end Runs

/-! ### The alphabets of what palettes hold -/

/-- The characters of identifiers. -/
def identifierChar (c : Char) : Bool :=
  c.isAlpha || c == '_' || c == '$' || c.isDigit

/-- The characters of a reference to a slot: those of identifiers, and those that select. -/
def argumentChar (c : Char) : Bool :=
  identifierChar c || c == '.' || c == '[' || c == ']'

/-- The characters of colors. -/
def colorChar (c : Char) : Bool :=
  c == '#' || (Text.hexValue? c).isSome

theorem writtenIn_of_isIdentifier {t : Text} (h : isIdentifier t = true) : WrittenIn identifierChar t := by
  cases t with
  | nil => exact .nil
  | cons c rest =>
      simp only [isIdentifier, Bool.and_eq_true, List.all_eq_true] at h
      refine WrittenIn.cons_iff.2 ⟨?_, fun d hd => ?_⟩
      · simp [identifierChar, h.1]
      · simpa [identifierChar] using h.2 d hd

theorem WrittenIn.argument {t : Text} (h : WrittenIn identifierChar t) : WrittenIn argumentChar t :=
  h.mono fun c hc => by simp [argumentChar, hc]

theorem writtenIn_of_isColorKey {t : Text} (h : isColorKey t = true) : WrittenIn colorChar t := by
  unfold isColorKey at h
  split at h
  · rename_i digits
    simp only [Bool.and_eq_true, List.all_eq_true] at h
    refine WrittenIn.cons_iff.2 ⟨rfl, fun c hc => ?_⟩
    simp [colorChar, h.2 c hc]
  · contradiction

theorem writtenIn_numeral (n : Nat) : WrittenIn Char.isDigit (Text.numeral n) :=
  fun _ hc => Nat.isDigit_of_mem_toDigits (by decide) (by decide) hc

end CanvasExport
