/-
Module: CanvasExport.Proofs.Text.Occurrences
Layer: Proofs
Purpose: How often a needle occurs. Every place at which it starts counts. Where no two occurrences overlap, a sweep
  that goes on behind what it has found misses none, and so a literal is replaced as often as it occurs. In general it
  is replaced as often as a search from the left finds it.
Main exports: Text.occurrences, Text.occurrences_append_of_not_prefix, Text.SelfDisjoint, Text.selfDisjoint_of_last,
  Text.occurrences_self_append, Recognizer.swaps_literal, Text.matchCount, Recognizer.swaps_literal_eq_matchCount,
  Text.matchCount_append_cons
-/
import CanvasExport.Proofs.Text.Alphabet
import CanvasExport.Proofs.Text.Sweep

namespace CanvasExport

namespace Text

/-- The number of characters at which an occurrence of the needle starts. -/
def occurrences (needle : Text) : Text → Nat
  | [] => 0
  | c :: rest => (if needle <+: c :: rest then 1 else 0) + occurrences needle rest

theorem occurrences_append_of_not_prefix {needle above below : Text}
    (h : ∀ start, start ≠ [] → start <:+ above → ¬ needle <+: start ++ below) :
    occurrences needle (above ++ below) = occurrences needle below := by
  induction above with
  | nil => rfl
  | cons c above ih =>
      have hhere : ¬ needle <+: c :: (above ++ below) := h (c :: above) (List.cons_ne_nil _ _) List.suffix_rfl
      have hrest := ih fun start hne hstart => h start hne (hstart.trans (List.suffix_cons _ _))
      rw [List.cons_append, occurrences, if_neg hhere, hrest, Nat.zero_add]

/-! ### Occurrences that do not overlap -/

/-- Within an occurrence of the needle no other one starts. -/
def SelfDisjoint (needle : Text) : Prop :=
  ∀ start, start ≠ [] → start <:+ needle → ∀ below, needle <+: start ++ below → start = needle

/-- A needle with a last character that it holds nowhere else. -/
theorem selfDisjoint_of_last {front : Text} {c : Char} (h : c ∉ front) : SelfDisjoint (front ++ [c]) := by
  intro start hne hstart below hstarts
  obtain ⟨late, last, rfl⟩ := (List.eq_nil_or_concat start).resolve_left hne
  rw [List.concat_eq_append] at hstart hstarts ⊢
  obtain ⟨early, hearly⟩ := hstart
  rw [← List.append_assoc] at hearly
  obtain ⟨hfront, hlast⟩ := List.append_inj' hearly rfl
  obtain rfl : last = c := by simpa using hlast
  have hlate : last ∉ late := fun hmem => h (hfront ▸ List.mem_append_right _ hmem)
  have hends : ∀ rest : Text, Ends (· != last) (last :: rest) := fun rest => ends_cons.2 (by simp)
  obtain ⟨rest, hwhole⟩ := hstarts
  have hsame : front = late := by
    calc
      front = (front ++ last :: rest).takeWhile (· != last) :=
        (takeWhile_append_of_ends (.of_not_mem h) (hends rest)).symm
      _ = (late ++ last :: below).takeWhile (· != last) := by
        simpa using congrArg (List.takeWhile (· != last)) hwhole
      _ = late := takeWhile_append_of_ends (.of_not_mem hlate) (hends below)
  rw [hsame]

theorem occurrences_self_append {needle : Text} (h : SelfDisjoint needle) (hne : needle ≠ []) (below : Text) :
    occurrences needle (needle ++ below) = 1 + occurrences needle below := by
  obtain ⟨c, behind, hbehind⟩ := List.exists_cons_of_ne_nil hne
  have hhead : needle <+: c :: (behind ++ below) := ⟨below, by rw [hbehind, List.cons_append]⟩
  have hrest : occurrences needle (behind ++ below) = occurrences needle below := by
    refine occurrences_append_of_not_prefix fun start hne hstart hstarts => ?_
    have hwhole := h start hne (hbehind ▸ hstart.trans (List.suffix_cons _ _)) below hstarts
    have hlength := hstart.length_le
    rw [hwhole, hbehind, List.length_cons] at hlength
    omega
  calc
    occurrences needle (needle ++ below) = occurrences needle (c :: (behind ++ below)) := by
      rw [← List.cons_append, ← hbehind]
    _ = 1 + occurrences needle below := by rw [occurrences, if_pos hhead, hrest]

end Text

/-- Occurrences that do not overlap are all replaced. -/
theorem Recognizer.swaps_literal {needle : Text} (image : Text) (hne : needle ≠ []) (h : Text.SelfDisjoint needle)
    (t : Text) : ((literal needle image).script t).swaps = Text.occurrences needle t := by
  refine script_induction (literal_faithful image hne) (fun _ _ => rfl)
    (motive := fun t s => s.swaps = Text.occurrences needle t) rfl (fun c rest hnone hrest => ?kept)
    (fun s rest _ hs hrest => ?found) t
  case kept =>
    have hhead : ¬ needle <+: c :: rest := by
      intro hstarts
      rw [literal_eq, if_pos hstarts] at hnone
      contradiction
    rw [Script.swaps_keep, hrest, Text.occurrences, if_neg hhead, Nat.zero_add]
  case found =>
    rw [literal_eq] at hs
    split at hs
    · obtain rfl := Option.some.inj hs
      simp [Edit.source, hrest, Text.occurrences_self_append h hne, Nat.add_comm]
    · contradiction

/-! ### Matches from the left -/

namespace Text

/-- The number of matches of the needle behind `covered` characters. -/
def matchCountFrom (needle : Text) : (covered : Nat) → Text → Nat
  | _, [] => 0
  | covered + 1, _ :: rest => matchCountFrom needle covered rest
  | 0, c :: rest =>
    if needle <+: c :: rest then matchCountFrom needle (needle.length - 1) rest + 1 else matchCountFrom needle 0 rest

/-- The number of matches that a search from the left finds, each behind the end of the one before. -/
def matchCount (needle t : Text) : Nat :=
  matchCountFrom needle 0 t

end Text

theorem Recognizer.swaps_sweep_literal (needle image : Text) (covered : Nat) (before : Option Char) (t : Text) :
    (sweep (literal needle image) covered before t).swaps = Text.matchCountFrom needle covered t := by
  induction t generalizing covered before with
  | nil => rfl
  | cons c rest ih =>
      cases covered with
      | succ covered => exact ih covered (some c)
      | zero =>
          rw [sweep, literal_eq, Text.matchCountFrom]
          by_cases h : needle <+: c :: rest
          · simp only [if_pos h, Script.swaps_append, Script.source_cons, Script.source_nil, Edit.source,
              List.append_nil, ih]
            rw [Script.swaps_swap, Script.swaps_nil]
            omega
          · simp only [if_neg h, Script.swaps_keep, ih]

/-- A literal is replaced at each of its matches. -/
theorem Recognizer.swaps_literal_eq_matchCount (needle image t : Text) :
    ((literal needle image).script t).swaps = Text.matchCount needle t :=
  swaps_sweep_literal needle image 0 none t

namespace Text

variable {needle : Text} (hne : needle ≠ [])

include hne

theorem matchCount_pos_iff {t : Text} : 0 < matchCount needle t ↔ needle <:+: t := by
  rw [← Recognizer.swaps_literal_eq_matchCount needle needle]
  exact Recognizer.swaps_literal_pos needle hne t

theorem matchCount_eq_zero_iff {t : Text} : matchCount needle t = 0 ↔ ¬ needle <:+: t := by
  rw [← matchCount_pos_iff hne]
  omega

/-- A character that the needle does not hold separates its matches. -/
theorem matchCount_append_cons {c : Char} (h : c ∉ needle) (above below : Text) :
    matchCount needle (above ++ c :: below) = matchCount needle above + matchCount needle below := by
  have hscript := Recognizer.script_append_stop (Recognizer.literal_faithful needle hne) (fun _ _ => rfl)
    (Recognizer.literal_stopsAt needle h) above below
  simp only [← Recognizer.swaps_literal_eq_matchCount needle needle, hscript, Script.swaps_append,
    Script.swaps_keep]

/-- Behind a text in which no match starts there is the only match, if the needle is what follows. -/
theorem matchCount_append_self {above : Text}
    (h : ∀ start, start ≠ [] → start <:+ above → ¬ needle <+: start ++ needle) :
    matchCount needle (above ++ needle) = 1 := by
  have hnone : ∀ start, start ≠ [] → start <:+ above →
      Recognizer.literal needle needle none (start ++ needle) = none := by
    intro start hstart hsuffix
    rw [Recognizer.literal_eq, if_neg (h start hstart hsuffix)]
  have hself : Recognizer.literal needle needle none needle = some [.swap needle needle] := by
    rw [Recognizer.literal_eq, if_pos List.prefix_rfl]
  have hwhole : needle = Script.source [.swap needle needle] ++ [] := by simp [Edit.source]
  have hfound := Recognizer.script_of_some (Recognizer.literal_faithful needle hne) (fun _ _ => rfl) hself hwhole
  rw [← Recognizer.swaps_literal_eq_matchCount needle needle,
    Recognizer.script_append_of_none (fun _ _ => rfl) hnone, hfound]
  simp [Recognizer.script, sweep]

end Text

end CanvasExport
