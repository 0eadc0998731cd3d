/-
Module: CanvasExport.Proofs.Rule.Literals
Layer: Proofs
Purpose: Where fill literals start. None starts within a reference, and within a literal only that literal itself does;
  so a swap stands exactly where a literal of one of its colors starts, and two swaps, one after the other, come
  to one pass for both. If they share no color, their order does not matter either.
Main exports: not_prefix_of_reference, prefix_of_literal, eq_of_prefix_literal, FillSwap.script_reference,
  FillSwap.script_other, FillSwap.mem_places, either, FillSwap.script_either, FillSwap.commute
-/
import CanvasExport.Proofs.Rule.Fill
import CanvasExport.Proofs.Text.Occurrences

namespace CanvasExport

/-! ### Places at which nothing starts -/

/-- A needle with a character that the text above does not hold, and before it none of the character in which that
    text ends, does not start in that text. -/
theorem not_prefix_behind_cons {α : Type} {early late above below : List α} {c d : α} (habove : c ∉ above)
    (hne : c ≠ d) (hearly : d ∉ early) : ¬ early ++ c :: late <+: above ++ d :: below := by
  induction above generalizing early with
  | nil =>
      cases early with
      | nil => simp [List.cons_prefix_cons, hne]
      | cons e early =>
          simp only [List.mem_cons, not_or] at hearly
          simp [List.cons_prefix_cons, Ne.symm hearly.1]
  | cons a above ih =>
      simp only [List.mem_cons, not_or] at habove
      cases early with
      | nil => simp [List.cons_prefix_cons, habove.1]
      | cons e early =>
          simp only [List.mem_cons, not_or] at hearly
          have hrest := ih habove.2 hearly.2
          simp only [List.cons_append, List.cons_prefix_cons, not_and]
          exact fun _ => hrest

namespace Rule

/-! ### Where literals start -/

/-- No literal starts within a reference. -/
theorem not_prefix_of_reference {argument : Text} (hargument : WrittenIn argumentChar argument) {start : Text}
    (hne : start ≠ []) (hstart : start <:+ fillReference argument) (color below : Text) :
    ¬ fillLiteral color <+: start ++ below := by
  obtain ⟨front, last, rfl⟩ := (List.eq_nil_or_concat start).resolve_left hne
  rw [List.concat_eq_append, fillReference_eq_append] at hstart
  obtain ⟨before, hbefore⟩ := hstart
  rw [← List.append_assoc] at hbefore
  obtain ⟨hfront, hlast⟩ := List.append_inj' hbefore rfl
  obtain rfl : last = ')' := by simpa using hlast
  have hfree : '"' ∉ front := fun hmem =>
    quote_not_mem_reference hargument (hfront ▸ List.mem_append_right _ hmem)
  rw [List.concat_eq_append, List.append_assoc, List.singleton_append, fillLiteral_eq]
  exact not_prefix_behind_cons hfree (by decide) paren_not_mem_fillHead

/-- Within a literal no literal starts but at its head. -/
theorem prefix_of_literal {color start : Text} (hcolor : WrittenIn colorChar color) (hne : start ≠ [])
    (hstart : start <:+ fillLiteral color) {other below : Text} (h : fillLiteral other <+: start ++ below) :
    start = fillLiteral color := by
  rw [fillLiteral_eq_cons, List.suffix_cons_iff] at hstart
  refine hstart.resolve_right (fun hbehind => ?_) |>.trans (fillLiteral_eq_cons color).symm
  obtain ⟨c, start, rfl⟩ := List.exists_cons_of_ne_nil hne
  rw [fillLiteral_eq_cons, List.cons_append, List.cons_prefix_cons] at h
  exact letter_not_mem_literal hcolor (hbehind.subset (h.1 ▸ List.mem_cons_self))

/-- Literals of different colors do not start at the same place. -/
theorem eq_of_prefix_literal {color other : Text} (hcolor : WrittenIn colorChar color)
    (hother : WrittenIn colorChar other) {below : Text} (h : fillLiteral other <+: fillLiteral color ++ below) :
    other = color := by
  obtain ⟨after, hafter⟩ := h
  have hcolors : other ++ '"' :: (')' :: fillTail ++ after) = color ++ '"' :: (')' :: fillTail ++ below) := by
    simpa [fillLiteral_eq] using hafter
  have hends : ∀ rest : Text, Ends colorChar ('"' :: rest) := fun rest => ends_cons.2 (by decide)
  calc
    other = (other ++ '"' :: (')' :: fillTail ++ after)).takeWhile colorChar :=
      (takeWhile_append_of_ends hother (hends _)).symm
    _ = (color ++ '"' :: (')' :: fillTail ++ below)).takeWhile colorChar := by rw [hcolors]
    _ = color := takeWhile_append_of_ends hcolor (hends _)

theorem selfDisjoint_fillLiteral {color : Text} (hcolor : WrittenIn colorChar color) :
    Text.SelfDisjoint (fillLiteral color) :=
  fun _ hne hstart _ hstarts => prefix_of_literal hcolor hne hstart hstarts

namespace FillSwap

variable {r : Recognizer} {handles : Text → Prop}

/-- Nothing is recognized where no literal starts. -/
theorem eq_none (h : FillSwap r handles) {t : Text}
    (hno : ∀ color, handles color → ¬ fillLiteral color <+: t) : r none t = none := by
  cases hs : r none t with
  | none => rfl
  | some s =>
      obtain ⟨color, _, rest, hcolor, -, rfl, -⟩ := h.found hs
      exact absurd (List.prefix_append _ _) (hno color hcolor)

/-- A swap passes over a reference. -/
theorem script_reference (h : FillSwap r handles) {argument : Text} (hargument : WrittenIn argumentChar argument)
    (below : Text) :
    r.script (fillReference argument ++ below) = Script.keeps (fillReference argument) ++ r.script below :=
  Recognizer.script_append_of_none h.inline.contextFree fun _ hne hstart =>
    h.eq_none fun color _ => not_prefix_of_reference hargument hne hstart color below

/-- A swap passes over the literal of a color that it does not handle. -/
theorem script_other (h : FillSwap r handles) {color below : Text} (hcolor : WrittenIn colorChar color)
    (hnone : r none (fillLiteral color ++ below) = none) :
    r.script (fillLiteral color ++ below) = Script.keeps (fillLiteral color) ++ r.script below := by
  refine Recognizer.script_append_of_none h.inline.contextFree fun start hne hstart => ?_
  by_cases hwhole : start = fillLiteral color
  · rwa [hwhole]
  · exact h.eq_none fun other _ hstarts => hwhole (prefix_of_literal hcolor hne hstart hstarts)

end FillSwap

/-! ### Where swaps stand -/

namespace FillSwap

variable {r : Recognizer} {handles : Text → Prop}

theorem old_ne_nil (h : FillSwap r handles) {t old new : Text} (hswap : Edit.swap old new ∈ r.script t) :
    old ≠ [] := by
  obtain ⟨before, there, s, -, hs, hmem⟩ := Recognizer.exists_of_swap_mem_script hswap
  rw [h.inline.contextFree] at hs
  obtain ⟨color, argument, _, -, -, -, rfl⟩ := h.found hs
  obtain ⟨rfl, -⟩ : old = fillLiteral color ∧ new = fillReference argument := by simpa using hmem
  exact fillLiteral_ne_nil color

/-- A swap stands at each literal of a handled color, and nowhere else. -/
theorem mem_places (h : FillSwap r handles) (t : Text) (place : Nat) :
    place ∈ (r.script t).places ↔ ∃ color, handles color ∧ fillLiteral color <+: t.drop place := by
  refine Recognizer.script_induction h.inline.faithful h.inline.contextFree
    (motive := fun t s => ∀ place, place ∈ s.places ↔ ∃ color, handles color ∧ fillLiteral color <+: t.drop place)
    (fun place => ?nil) (fun c rest hnone hrest place => ?kept) (fun s rest _ hs hrest place => ?found) t place
  case nil =>
    have hnone : ∀ color, ¬ fillLiteral color <+: [] := fun color hstarts =>
      fillLiteral_ne_nil color (List.prefix_nil.1 hstarts)
    simp [Script.places, hnone]
  case kept =>
    cases place with
    | zero =>
        have hnowhere : ¬ ∃ color, handles color ∧ fillLiteral color <+: c :: rest := by
          rintro ⟨color, hcolor, below, hbelow⟩
          exact h.complete hcolor below (hbelow ▸ hnone)
        simpa [Script.places] using hnowhere
    | succ place =>
        rw [List.drop_succ_cons, ← hrest place]
        simp [Script.places, Nat.add_comm 1]
  case found =>
    obtain ⟨color, argument, _, hcolor, -, -, rfl⟩ := h.found hs
    have hsource : Script.source [.swap (fillLiteral color) (fillReference argument)] = fillLiteral color := by
      simp [Edit.source]
    rw [hsource, List.singleton_append, Script.places, List.mem_cons, List.mem_map]
    constructor
    · rintro (rfl | ⟨later, hlater, rfl⟩)
      · exact ⟨color, hcolor, List.prefix_append _ _⟩
      · rw [List.drop_length_add_append]
        exact (hrest later).1 hlater
    · rintro ⟨other, hother, hstarts⟩
      rcases Nat.lt_or_ge place (fillLiteral color).length with hinside | hbehind
      · -- Only the literal itself starts within it.
        left
        rw [List.drop_append_of_le_length (Nat.le_of_lt hinside)] at hstarts
        have hne : (fillLiteral color).drop place ≠ [] := by
          rw [ne_eq, List.drop_eq_nil_iff]
          omega
        have hwhole := prefix_of_literal (h.colors hcolor) hne (List.drop_suffix _ _) hstarts
        have hlength := congrArg List.length hwhole
        rw [List.length_drop] at hlength
        omega
      · right
        obtain ⟨later, rfl⟩ := Nat.exists_eq_add_of_le hbehind
        rw [List.drop_length_add_append] at hstarts
        exact ⟨later, (hrest later).2 ⟨other, hother, hstarts⟩, rfl⟩

end FillSwap

/-! ### Two swaps in one pass -/

/-- Recognizes what the first recognizer does, and otherwise what the second does. -/
def either (first second : Recognizer) : Recognizer := fun before t =>
  (first before t).or (second before t)

/-- What the recognizer does with a literal of its colors does not depend on what stands behind the literal. -/
def Steady (r : Recognizer) (handles : Text → Prop) : Prop :=
  ∀ color, handles color → ∀ below other, r none (fillLiteral color ++ below) = r none (fillLiteral color ++ other)

namespace FillSwap

variable {first second : Recognizer} {handled others : Text → Prop}

theorem either (h₁ : FillSwap first handled) (h₂ : FillSwap second others) :
    FillSwap (either first second) (fun color => handled color ∨ others color) where
  inline :=
    { faithful := fun before t s hs => by
        rcases Option.or_eq_some_iff.1 hs with hs | ⟨-, hs⟩
        · exact h₁.inline.faithful before t s hs
        · exact h₂.inline.faithful before t s hs
      contextFree := fun before t => by
        rw [Rule.either, h₁.inline.contextFree, h₂.inline.contextFree]
        rfl
      stops := fun c hc t below => by
        rw [Rule.either, h₁.inline.stops c hc, h₂.inline.stops c hc]
        rfl }
  colors hcolor := hcolor.elim h₁.colors h₂.colors
  found {t s} hs := by
    rcases Option.or_eq_some_iff.1 hs with hs | ⟨-, hs⟩
    · obtain ⟨color, argument, rest, hcolor, hfound⟩ := h₁.found hs
      exact ⟨color, argument, rest, .inl hcolor, hfound⟩
    · obtain ⟨color, argument, rest, hcolor, hfound⟩ := h₂.found hs
      exact ⟨color, argument, rest, .inr hcolor, hfound⟩
  complete {color} hcolor rest hnone := by
    obtain ⟨hnone₁, hnone₂⟩ := Option.or_eq_none_iff.1 hnone
    exact hcolor.elim (fun hcolor => h₁.complete hcolor rest hnone₁) fun hcolor => h₂.complete hcolor rest hnone₂

/-- A swap passes over what only another one finds. -/
theorem script_of_found (h₁ : FillSwap first handled) (h₂ : FillSwap second others) {s : Script} {rest : Text}
    (hs : first none (s.source ++ rest) = some s) (hnone : second none (s.source ++ rest) = none) :
    second.script (s.source ++ rest) = Script.keeps s.source ++ second.script rest := by
  obtain ⟨color, argument, _, hcolor, -, -, hswap⟩ := h₁.found hs
  have hsource : s.source = fillLiteral color := by simp [hswap, Edit.source]
  rw [hsource] at hnone ⊢
  exact h₂.script_other (h₁.colors hcolor) hnone

/-- Going over a text with one swap and over what it wrote with another comes to one pass for both. -/
theorem script_either (h₁ : FillSwap first handled) (h₂ : FillSwap second others) (hsteady : Steady second others)
    (t : Text) : (second.script (first.script t).result).result = ((Rule.either first second).script t).result
      ∧ (first.script t).swaps + (second.script (first.script t).result).swaps
        = ((Rule.either first second).script t).swaps := by
  have hboth := h₁.either h₂
  refine Recognizer.script_induction hboth.inline.faithful hboth.inline.contextFree
    (motive := fun t s => (second.script (first.script t).result).result = s.result
      ∧ (first.script t).swaps + (second.script (first.script t).result).swaps = s.swaps)
    ⟨rfl, rfl⟩ (fun c rest hnone hrest => ?kept) (fun s rest hne hs hrest => ?found) t
  case kept =>
    obtain ⟨hfirst, hlater⟩ := Option.or_eq_none_iff.1 hnone
    -- No literal is opened here by what the first pass writes further on.
    have hlater' : second none (c :: (first.script rest).result) = none := by
      refine h₂.eq_none fun color hcolor hstarts => ?_
      obtain ⟨after, hafter⟩ := h₁.prefix_of_prefix_kept (h₂.colors hcolor) hstarts
      exact h₂.complete hcolor after (hafter ▸ hlater)
    rw [Recognizer.script_cons_of_none h₁.inline.contextFree hfirst, Script.result_cons, Edit.result,
      List.singleton_append, Recognizer.script_cons_of_none h₂.inline.contextFree hlater']
    simpa [Edit.result] using hrest
  case found =>
    rcases Option.or_eq_some_iff.1 hs with hfirst | ⟨hfirst, hlater⟩
    · obtain ⟨color, argument, _, -, hargument, -, hswap⟩ := h₁.found hfirst
      rw [Recognizer.script_of_some h₁.inline.faithful h₁.inline.contextFree hfirst rfl, Script.result_append]
      have hresult : s.result = fillReference argument := by simp [hswap, Edit.result]
      rw [hresult, h₂.script_reference hargument]
      simp [hrest.1, ← hrest.2, hresult, Nat.add_assoc]
    · obtain ⟨color, argument, _, hcolor, -, -, hswap⟩ := h₂.found hlater
      have hsource : s.source = fillLiteral color := by simp [hswap, Edit.source]
      have hagain : second none (s.source ++ (first.script rest).result) = some s := by
        rw [← hlater, hsource]
        exact hsteady color hcolor _ rest
      rw [h₂.script_of_found h₁ hlater hfirst, Script.result_append, Script.result_keeps,
        Recognizer.script_of_some h₂.inline.faithful h₂.inline.contextFree hagain rfl]
      simp only [Script.result_append, Script.swaps_append, Script.swaps_keeps, hrest.1, ← hrest.2, true_and]
      omega

/-! ### Swaps that share no color -/

section Disjoint

variable (h₁ : FillSwap first handled) (h₂ : FillSwap second others)
  (hdisjoint : ∀ color, handled color → ¬ others color)

include h₁ h₂ hdisjoint

/-- At one place only one of them finds a literal. -/
theorem eq_none_of_disjoint {t : Text} {s : Script} (hs : first none t = some s) : second none t = none := by
  obtain ⟨color, _, rest, hcolor, -, rfl, -⟩ := h₁.found hs
  refine h₂.eq_none fun other hother hstarts => ?_
  exact hdisjoint color hcolor (eq_of_prefix_literal (h₁.colors hcolor) (h₂.colors hother) hstarts ▸ hother)

theorem either_comm : Rule.either first second = Rule.either second first := by
  funext before t
  rw [Rule.either, Rule.either, h₁.inline.contextFree, h₂.inline.contextFree]
  cases hs : first none t with
  | none => cases second none t <;> rfl
  | some s =>
      rw [eq_none_of_disjoint h₁ h₂ hdisjoint hs]
      rfl

/-- One pass for both swaps what each of them swaps. -/
theorem swaps_either (t : Text) :
    ((Rule.either first second).script t).swaps = (first.script t).swaps + (second.script t).swaps := by
  have hboth := h₁.either h₂
  refine Recognizer.script_induction hboth.inline.faithful hboth.inline.contextFree
    (motive := fun t s => s.swaps = (first.script t).swaps + (second.script t).swaps)
    rfl (fun c rest hnone hrest => ?kept) (fun s rest hne hs hrest => ?found) t
  case kept =>
    obtain ⟨hfirst, hsecond⟩ := Option.or_eq_none_iff.1 hnone
    rw [Recognizer.script_cons_of_none h₁.inline.contextFree hfirst,
      Recognizer.script_cons_of_none h₂.inline.contextFree hsecond]
    simpa using hrest
  case found =>
    rcases Option.or_eq_some_iff.1 hs with hfirst | ⟨hfirst, hsecond⟩
    · have hsecond := eq_none_of_disjoint h₁ h₂ hdisjoint hfirst
      rw [Recognizer.script_of_some h₁.inline.faithful h₁.inline.contextFree hfirst rfl,
        h₁.script_of_found h₂ hfirst hsecond]
      simp only [Script.swaps_append, Script.swaps_keeps, hrest]
      omega
    · rw [Recognizer.script_of_some h₂.inline.faithful h₂.inline.contextFree hsecond rfl,
        h₂.script_of_found h₁ hsecond hfirst]
      simp only [Script.swaps_append, Script.swaps_keeps, hrest]
      omega

/-- Their order does not matter to the text, and each finds as much behind the other as it finds alone. -/
theorem commute (hsteady₁ : Steady first handled) (hsteady₂ : Steady second others) (t : Text) :
    (second.script (first.script t).result).result = (first.script (second.script t).result).result
      ∧ (second.script (first.script t).result).swaps = (second.script t).swaps
      ∧ (first.script (second.script t).result).swaps = (first.script t).swaps := by
  obtain ⟨hresult, hswaps⟩ := h₁.script_either h₂ hsteady₂ t
  obtain ⟨hresult', hswaps'⟩ := h₂.script_either h₁ hsteady₁ t
  rw [either_comm h₁ h₂ hdisjoint] at hresult hswaps
  have htotal := swaps_either h₁ h₂ hdisjoint t
  rw [either_comm h₁ h₂ hdisjoint] at htotal
  refine ⟨hresult.trans hresult'.symm, ?_, ?_⟩ <;> omega

end Disjoint

end FillSwap

end Rule

end CanvasExport
