/-
Module: CanvasExport.Text.Edit
Layer: Text
Purpose: Rewriting as an edit script. A sweep walks over a text once, from left to right; wherever a
  recognizer knows what stands at a place it writes that part of the script, and every other character is
  kept. The script holds both texts, the one that was read and the one that is written, and says how many
  replacements lie between them.
Main exports: Edit, Script, Script.source, Script.result, Script.swaps, sweep, source_sweep
-/
import CanvasExport.Text.Basic

namespace CanvasExport

/-- One step of a script: a stretch that is kept, or one that is replaced. A swap counts as a replacement
    even if it writes what it read. -/
inductive Edit where
  | keep (t : Text)
  | swap (old new : Text)
deriving DecidableEq, Repr, Inhabited

namespace Edit

/-- What the edit reads. -/
def source : Edit → Text
  | .keep t => t
  | .swap old _ => old

/-- What the edit writes. -/
def result : Edit → Text
  | .keep t => t
  | .swap _ new => new

def isSwap : Edit → Bool
  | .keep _ => false
  | .swap _ _ => true

end Edit

/-- The edits of a text in order. -/
abbrev Script := List Edit

namespace Script

/-- The text that the script reads. -/
def source (s : Script) : Text :=
  s.flatMap Edit.source

/-- The text that the script writes. -/
def result (s : Script) : Text :=
  s.flatMap Edit.result

/-- The number of replacements. -/
def swaps (s : Script) : Nat :=
  s.countP Edit.isSwap

@[simp] theorem source_append (s₁ s₂ : Script) : source (s₁ ++ s₂) = source s₁ ++ source s₂ := by
  simp [source]

@[simp] theorem result_append (s₁ s₂ : Script) : result (s₁ ++ s₂) = result s₁ ++ result s₂ := by
  simp [result]

@[simp] theorem swaps_append (s₁ s₂ : Script) : swaps (s₁ ++ s₂) = swaps s₁ + swaps s₂ := by
  simp [swaps]

end Script

/-- What a rule knows about one place: from the character before the place and the text after it, the
    edits of a non-empty stretch at the head of that text. -/
abbrev Recognizer := Option Char → Text → Option Script

namespace Recognizer

/-- A recognizer is faithful if its scripts read what stands there, and read at least one character. -/
def Faithful (r : Recognizer) : Prop :=
  ∀ before t s, r before t = some s → s.source ≠ [] ∧ ∃ rest, t = s.source ++ rest

/-- Recognizes a fixed text and puts `image` in its place. -/
def literal (needle image : Text) : Recognizer := fun _ t =>
  (Text.strip? needle t).map fun _ => [.swap needle image]

theorem literal_faithful {needle : Text} (image : Text) (h : needle ≠ []) :
    (literal needle image).Faithful := by
  intro before t s hs
  obtain ⟨rest, hrest, rfl⟩ := Option.map_eq_some_iff.1 hs
  refine ⟨by simpa [Script.source, Edit.source] using h, rest, ?_⟩
  simpa [Script.source, Edit.source] using Text.strip?_eq_some_iff.1 hrest

end Recognizer

/-- The script of a whole text: the leftmost recognized stretch first, then on from its end, so that no two
    overlap. `pending` counts the characters that the last recognized stretch still covers. -/
def sweep (r : Recognizer) : (pending : Nat) → (before : Option Char) → Text → Script
  | _, _, [] => []
  | pending + 1, _, c :: rest => sweep r pending (some c) rest
  | 0, before, c :: rest =>
    match r before (c :: rest) with
    | some s => s ++ sweep r (s.source.length - 1) (some c) rest
    | none => .keep [c] :: sweep r 0 (some c) rest

/-- The script of a text from its start. -/
def Recognizer.script (r : Recognizer) (t : Text) : Script :=
  sweep r 0 none t

/-- A sweep with characters still to pass reads what remains after them. -/
theorem source_sweep {r : Recognizer} (hr : r.Faithful) (pending : Nat) (before : Option Char) (t : Text) :
    (sweep r pending before t).source = t.drop pending := by
  induction t generalizing pending before with
  | nil => simp [sweep, Script.source]
  | cons c rest ih =>
    cases pending with
    | succ n => simp [sweep, ih]
    | zero =>
      rw [sweep]
      split
      · rename_i s hs
        obtain ⟨hne, after, heq⟩ := hr _ _ _ hs
        cases hsource : s.source with
        | nil => exact absurd hsource hne
        | cons d ds =>
          obtain ⟨rfl, rfl⟩ : c = d ∧ rest = ds ++ after := by simpa [hsource] using heq
          simp only [Script.source_append, ih]
          simp [hsource]
      · simpa [Script.source, Edit.source] using ih 0 (some c)

/-- The script of a text reads that text. -/
theorem Recognizer.source_script {r : Recognizer} (hr : r.Faithful) (t : Text) :
    (r.script t).source = t := by
  simp [script, source_sweep hr]

end CanvasExport
