/-
Module: CanvasExport.Proofs.Rule.Rereading
Layer: Proofs
Purpose: A gate that reads what it has written, line breaks of any kind included. Its pass puts guards in front of
  registration lines only, so no line becomes one by what a guard says, and every tag stands where it stood, with the
  same suffix and the same line; that line starts with the guard now. A second pass therefore changes nothing.
Main exports: GuardsLines, GuardsLines.isSome_nextRegistration?_iff, LayerGate.isSome_layer?_iff,
  GuardsLines.layer?_eq_none, GuardsLines.exists_layer?, LayerGate.layer?_guarded, LayerGate.guardsLines_script,
  LayerGate.script_result_script
-/
import CanvasExport.Proofs.Rule.Coverage
import CanvasExport.Proofs.Rule.Guarding
import CanvasExport.Proofs.Rule.Pattern

namespace CanvasExport.Rule

/-! ### Registration lines in any text -/

theorem isSome_throughRegistration?_cons {c : Char} (h : c ≠ '\n') (rest : Text) :
    (throughRegistration? (c :: rest)).isSome
      ↔ (throughRegistration? rest).isSome ∨ registration <+: c :: rest := by
  rw [throughRegistration?_cons h, Option.isSome_or, Option.isSome_map, Option.isSome_map, Bool.or_eq_true,
    isSome_strip?_iff]

/-- A registration line holds the registration word in front of its line feed. -/
theorem isSome_throughRegistration?_iff_takeWhile {t : Text} :
    (throughRegistration? t).isSome ↔ registration <:+: t.takeWhile (· != '\n') := by
  have hne : registration ≠ [] := by decide
  induction t with
  | nil => simp [throughRegistration?, hne]
  | cons c rest ih =>
      by_cases hlf : c = '\n'
      · subst hlf
        simp [throughRegistration?_lf, hne]
      · have hline : (c :: rest).takeWhile (· != '\n') = c :: rest.takeWhile (· != '\n') :=
          List.takeWhile_cons_of_pos (by simpa using hlf)
        have hhead : registration <+: c :: rest ↔ registration <+: (c :: rest).takeWhile (· != '\n') := by
          have hword := LayerGate.ne_lf_of_unbroken unbroken_registration
          constructor
          · rintro ⟨after, hwhole⟩
            rw [← hwhole, List.takeWhile_append_of_pos hword]
            exact List.prefix_append _ _
          · intro hstarts
            exact hstarts.trans (List.takeWhile_prefix _)
        rw [isSome_throughRegistration?_cons hlf rest, or_congr ih hhead, hline, List.infix_cons_iff, or_comm]

/-- Whether a line is a registration line does not depend on how it goes on, as long as that is one by itself. -/
theorem isSome_throughRegistration?_append_congr {t t' : Text} (h : (throughRegistration? t).isSome)
    (h' : (throughRegistration? t').isSome) (above : Text) :
    (throughRegistration? (above ++ t)).isSome ↔ (throughRegistration? (above ++ t')).isSome := by
  rw [isSome_throughRegistration?_iff_takeWhile] at h h'
  rw [isSome_throughRegistration?_iff_takeWhile, isSome_throughRegistration?_iff_takeWhile, List.takeWhile_append,
    List.takeWhile_append]
  split
  · exact ⟨fun _ => h'.trans (List.suffix_append _ _).isInfix, fun _ => h.trans (List.suffix_append _ _).isInfix⟩
  · rfl

theorem isSome_nextRegistration?_cons (before c : Char) (rest : Text) :
    (nextRegistration? before (c :: rest)).isSome
      ↔ (startsLine (some before) (some c) = true ∧ (throughRegistration? (c :: rest)).isSome)
        ∨ (nextRegistration? c rest).isSome := by
  rw [nextRegistration?, Registration.here?]
  cases startsLine (some before) (some c) <;> cases throughRegistration? (c :: rest) <;> simp

/-- The line that a search finds reaches to its last registration word. -/
theorem throughRegistration?_of_nextRegistration? {before : Char} {t : Text} {found : Registration}
    (h : nextRegistration? before t = some found) :
    throughRegistration? (found.line ++ found.rest) = some (found.line, found.rest) := by
  induction t generalizing before found with
  | nil => contradiction
  | cons c rest ih =>
      rw [nextRegistration?] at h
      split at h
      · rename_i here hhere
        obtain rfl := Option.some.inj h
        split at hhere
        · obtain ⟨⟨line, after⟩, hthrough, rfl⟩ := Option.map_eq_some_iff.1 hhere
          dsimp only
          rw [append_of_throughRegistration? hthrough, hthrough]
        · contradiction
      · obtain ⟨later, hlater, rfl⟩ := Option.map_eq_some_iff.1 h
        have hthrough := ih hlater
        exact hthrough

/-- Any character but a line feed can start the line that another one starts. -/
theorem startsLine_of_startsLine {before : Option Char} {c d : Char} (h : startsLine before (some c) = true)
    (hd : d ≠ '\n') : startsLine before (some d) = true := by
  unfold startsLine at *
  split at h <;> simp_all

/-- What stands in front of the found line is passed over, whatever becomes of the line and of what is behind it. -/
theorem nextRegistration?_of_gap {before : Char} {gap line rest line' rest' : Text}
    (h : nextRegistration? before (gap ++ (line ++ rest)) = some ⟨gap, line, rest⟩)
    (hline : throughRegistration? (line' ++ rest') = some (line', rest')) :
    nextRegistration? before (gap ++ (line' ++ rest')) = some ⟨gap, line', rest'⟩ := by
  have hthrough := throughRegistration?_of_nextRegistration? h
  induction gap generalizing before with
  | nil =>
      obtain ⟨c, tail, -, hstart⟩ := atStart_of_nextRegistration? h
      cases hcons : line' ++ rest' with
      | nil => simp [hcons, throughRegistration?] at hline
      | cons d below =>
          have hd : d ≠ '\n' := by
            rintro rfl
            simp [hcons, throughRegistration?_lf] at hline
          have hhere : startsLine (some before) (some d) = true := startsLine_of_startsLine hstart hd
          rw [List.nil_append, nextRegistration?, hhere, if_pos rfl, Registration.here?, ← hcons, hline]
          rfl
  | cons c gap ih =>
      rw [List.cons_append, nextRegistration?] at h
      split at h
      · rename_i here hhere
        obtain rfl := Option.some.inj h
        split at hhere
        · obtain ⟨found, -, heq⟩ := Option.map_eq_some_iff.1 hhere
          cases heq
        · contradiction
      · rename_i hnone
        obtain ⟨later, hlater, heq⟩ := Option.map_eq_some_iff.1 h
        obtain ⟨gap', line'', rest''⟩ := later
        obtain ⟨rfl, rfl, rfl⟩ : gap' = gap ∧ line'' = line ∧ rest'' = rest := by
          simpa [Registration.behind] using heq
        have hsame := isSome_throughRegistration?_append_congr (Option.isSome_of_mem hthrough)
          (Option.isSome_of_mem hline) (c :: gap')
        have hhere : (if startsLine (some before) (some c) then Registration.here? (c :: (gap' ++ (line' ++ rest')))
            else none) = none := by
          split
          · rename_i hstart
            rw [if_pos hstart, Registration.here?, Option.map_eq_none_iff, ← Option.not_isSome_iff_eq_none] at hnone
            rw [Registration.here?, Option.map_eq_none_iff, ← Option.not_isSome_iff_eq_none]
            exact mt hsame.2 hnone
          · rfl
        rw [List.cons_append, nextRegistration?, hhere, ih hlater hthrough]
        rfl

/-! ### Guards in front of registration lines -/

/-- The second text is the first one with guards in front of some of its registration lines. Of a guard nothing is
    asked but that it breaks no line. `before` is the character in front of both texts. -/
inductive GuardsLines : (before : Option Char) → Text → Text → Prop
  | nil (before : Option Char) : GuardsLines before [] []
  | kept {before : Option Char} {c : Char} {t guarded : Text} (hrest : GuardsLines (some c) t guarded) :
      GuardsLines before (c :: t) (c :: guarded)
  | guard {before : Option Char} {c : Char} {t guarded guard : Text} (hne : guard ≠ []) (hguard : Unbroken guard)
      (hstart : startsLine before (some c) = true) (hregistered : (throughRegistration? (c :: t)).isSome)
      (hrest : GuardsLines (some c) t guarded) : GuardsLines before (c :: t) (guard ++ c :: guarded)

namespace GuardsLines

variable {before : Option Char} {t guarded : Text}

theorem append_left (above : Text) (h : GuardsLines (above.getLast?.or before) t guarded) :
    GuardsLines before (above ++ t) (above ++ guarded) := by
  induction above generalizing before with
  | nil => exact h
  | cons c above ih =>
      rw [getLast?_cons_or] at h
      exact kept (ih h)

/-! ### Within lines -/

/-- Within a line there is no guard. -/
theorem cons_of_within (hbefore : WithinLine before) {c : Char} (h : GuardsLines before (c :: t) guarded) :
    ∃ rest, guarded = c :: rest ∧ GuardsLines (some c) t rest := by
  cases h with
  | kept hrest => exact ⟨_, rfl, hrest⟩
  | guard hne hguard hstart hregistered hrest =>
      rw [startsLine_of_withinLine hbefore] at hstart
      contradiction

theorem head?_of_within (hbefore : WithinLine before) (h : GuardsLines before t guarded) :
    guarded.head? = t.head? := by
  cases t with
  | nil =>
      cases h
      rfl
  | cons c t =>
      obtain ⟨rest, rfl, -⟩ := cons_of_within hbefore h
      rfl

/-- What stands at the head of a guarded text within a line stands at the head of the text. -/
theorem of_within (hbefore : WithinLine before) {needle below : Text} (hneedle : Unbroken needle)
    (h : GuardsLines before t (needle ++ below)) :
    ∃ rest, t = needle ++ rest ∧ GuardsLines (needle.getLast?.or before) rest below := by
  induction needle generalizing before t with
  | nil => exact ⟨t, rfl, h⟩
  | cons c needle ih =>
      rw [unbroken_cons] at hneedle
      have hhead := h.head?_of_within hbefore
      cases t with
      | nil => simp at hhead
      | cons d t =>
          obtain ⟨written, heq, hrest⟩ := cons_of_within hbefore h
          obtain ⟨rfl, rfl⟩ := List.cons.inj heq
          obtain ⟨rest, rfl, hbelow⟩ := ih ⟨c, rfl, hneedle.1⟩ hneedle.2 hrest
          exact ⟨rest, rfl, by rwa [getLast?_cons_or]⟩

/-- And the other way round. -/
theorem append_of_within (hbefore : WithinLine before) {needle rest : Text} (hneedle : Unbroken needle)
    (h : GuardsLines before (needle ++ rest) guarded) :
    ∃ below, guarded = needle ++ below ∧ GuardsLines (needle.getLast?.or before) rest below := by
  induction needle generalizing before guarded with
  | nil => exact ⟨guarded, rfl, h⟩
  | cons c needle ih =>
      rw [unbroken_cons] at hneedle
      obtain ⟨written, rfl, hrest⟩ := cons_of_within hbefore h
      obtain ⟨below, rfl, hbelow⟩ := ih ⟨c, rfl, hneedle.1⟩ hneedle.2 hrest
      exact ⟨below, rfl, by rwa [getLast?_cons_or]⟩

theorem prefix_iff_of_within (hbefore : WithinLine before) {needle : Text} (hneedle : Unbroken needle)
    (h : GuardsLines before t guarded) : needle <+: guarded ↔ needle <+: t := by
  constructor
  · rintro ⟨below, rfl⟩
    obtain ⟨rest, rfl, -⟩ := h.of_within hbefore hneedle
    exact List.prefix_append _ _
  · rintro ⟨rest, rfl⟩
    obtain ⟨below, rfl, -⟩ := h.append_of_within hbefore hneedle
    exact List.prefix_append _ _

/-! ### What a search for registration lines finds -/

theorem isSome_throughRegistration?_kept {c : Char} (h : GuardsLines (some c) t guarded)
    (hrest : (throughRegistration? guarded).isSome ↔ (throughRegistration? t).isSome) :
    (throughRegistration? (c :: guarded)).isSome ↔ (throughRegistration? (c :: t)).isSome := by
  by_cases hlf : c = '\n'
  · subst hlf
    simp [throughRegistration?_lf]
  · have hhead : registration <+: c :: guarded ↔ registration <+: c :: t := by
      obtain ⟨d, word, hword⟩ : ∃ d word, registration = d :: word := ⟨_, _, rfl⟩
      have hunbroken := unbroken_registration
      rw [hword, unbroken_cons] at hunbroken
      rw [hword, List.cons_prefix_cons, List.cons_prefix_cons]
      refine and_congr_right fun hc => ?_
      exact prefix_iff_of_within ⟨c, rfl, hc ▸ hunbroken.1⟩ hunbroken.2 h
    rw [isSome_throughRegistration?_cons hlf, isSome_throughRegistration?_cons hlf, or_congr hrest hhead]

/-- Guards make no registration line and hide none. -/
theorem isSome_throughRegistration?_iff (h : GuardsLines before t guarded) :
    (throughRegistration? guarded).isSome ↔ (throughRegistration? t).isSome := by
  induction h with
  | nil => rfl
  | kept hrest ih => exact isSome_throughRegistration?_kept hrest ih
  | guard _ hguard _ hregistered hrest ih =>
      refine ⟨fun _ => hregistered, fun _ => ?_⟩
      obtain ⟨found, hthrough⟩ := Option.isSome_iff_exists.1
        ((isSome_throughRegistration?_kept hrest ih).2 hregistered)
      rw [throughRegistration?_append hguard hthrough]
      rfl

/-- So a registration line starts somewhere in a guarded text exactly if one does in the text. -/
theorem isSome_nextRegistration?_iff {before : Char} (h : GuardsLines (some before) t guarded) :
    (nextRegistration? before guarded).isSome ↔ (nextRegistration? before t).isSome := by
  generalize hbefore : some before = front at h
  induction h generalizing before with
  | nil => rfl
  | kept hrest ih =>
      obtain rfl := hbefore
      have hhere := isSome_throughRegistration?_iff (.kept hrest : GuardsLines (some before) _ _)
      rw [isSome_nextRegistration?_cons, isSome_nextRegistration?_cons, ih rfl, hhere]
  | @guard _ c t guarded guard hne hguard hstart hregistered hrest ih =>
      obtain rfl := hbefore
      refine ⟨fun _ => (isSome_nextRegistration?_cons _ _ _).2 (.inl ⟨hstart, hregistered⟩), fun _ => ?_⟩
      have hthrough := (isSome_throughRegistration?_iff (.guard hne hguard hstart hregistered hrest)).2 hregistered
      obtain ⟨d, tail, rfl⟩ := List.exists_cons_of_ne_nil hne
      have hd : d ≠ '\n' := by
        rintro rfl
        exact absurd (unbroken_cons.1 hguard).1 (by decide)
      exact (isSome_nextRegistration?_cons _ _ _).2 (.inl ⟨startsLine_of_startsLine hstart hd, hthrough⟩)

end GuardsLines

/-! ### Tagged layers in any text -/

/-- Some suffix of an avatar's tag has a registration line behind it exactly if the empty one has. -/
theorem isSome_avatarLayer?_iff (before : Char) (t : Text) :
    (avatarLayer? before t).isSome ↔ (nextRegistration? before t).isSome := by
  induction t generalizing before with
  | nil => rfl
  | cons c rest ih =>
      rw [avatarLayer?_cons, Option.isSome_or, Option.isSome_map, Bool.or_eq_true]
      refine ⟨fun h => h.elim (fun hlonger => ?_) id, .inr⟩
      split at hlonger
      · contradiction
      · rw [Option.isSome_map, ih] at hlonger
        exact (isSome_nextRegistration?_cons _ _ _).2 (.inr hlonger)

/-- A number has a registration line behind it exactly if there is one behind its first digit. -/
theorem isSome_variantLayer?_iff {before : Char} (hbefore : endsLine (some before) = false) (t : Text) :
    (variantLayer? before t).isSome ↔ t.head?.any Char.isDigit = true ∧ (nextRegistration? before t).isSome := by
  have hdigits : Unbroken (t.takeWhile Char.isDigit) := (writtenIn_takeWhile t).unbroken rfl rfl
  have hwithin := nextRegistration?_within hbefore hdigits (t.dropWhile Char.isDigit)
  rw [List.takeWhile_append_dropWhile] at hwithin
  rw [variantLayer?, hwithin]
  cases t with
  | nil => simp
  | cons c rest => cases hc : c.isDigit <;> simp [hc]

/-- The suffix of an avatar's tag is empty if no registration line starts further on than at its place, except below the
    line of the tag. -/
theorem avatarLayer?_cons_eq_empty_iff {before c : Char} {rest : Text} {found : Registration} :
    avatarLayer? before (c :: rest) = some ⟨[], found⟩
      ↔ nextRegistration? before (c :: rest) = some found ∧ (c = '\n' ∨ nextRegistration? c rest = none) := by
  have hlater : avatarLayer? c rest = none ↔ nextRegistration? c rest = none := by
    rw [← Option.not_isSome_iff_eq_none, isSome_avatarLayer?_iff, Option.not_isSome_iff_eq_none]
  rw [avatarLayer?_cons]
  by_cases hlf : c = '\n'
  · simp [hlf]
  · cases hlonger : avatarLayer? c rest <;> simp [hlf, hlonger, ← hlater]

theorem variantLayer?_append {before : Char} {suffix t : Text} (hne : suffix ≠ [])
    (hdigits : WrittenIn Char.isDigit suffix) (ht : Ends Char.isDigit t) :
    variantLayer? before (suffix ++ t) = (nextRegistration? (lastOr before suffix) t).map (⟨suffix, ·⟩) := by
  have hdrop : (suffix ++ t).dropWhile Char.isDigit = t := by
    rw [List.dropWhile_append_of_pos hdigits]
    cases t with
    | nil => rfl
    | cons c t => simp [ends_cons.1 ht]
  rw [variantLayer?, takeWhile_append_of_ends hdigits ht, hdrop, if_neg (by simpa using hne)]

namespace GuardsLines

variable {before : Char} {suffix t guarded : Text} {found : Registration}

theorem nextRegistration?_none (hguarded : GuardsLines (some before) t guarded)
    (h : nextRegistration? before t = none) : nextRegistration? before guarded = none := by
  rw [← Option.not_isSome_iff_eq_none] at h ⊢
  exact mt hguarded.isSome_nextRegistration?_iff.1 h

/-- An avatar's tag with an empty suffix keeps it when guards are put into the text behind it. -/
theorem exists_avatarLayer?_empty (hguarded : GuardsLines (some before) t guarded)
    (h : avatarLayer? before t = some ⟨[], found⟩) : ∃ found', avatarLayer? before guarded = some ⟨[], found'⟩ := by
  cases t with
  | nil => contradiction
  | cons c rest =>
      obtain ⟨hnext, hlater⟩ := avatarLayer?_cons_eq_empty_iff.1 h
      have hsome := hguarded.isSome_nextRegistration?_iff.2 (Option.isSome_of_mem hnext)
      obtain ⟨found', hfound'⟩ := Option.isSome_iff_exists.1 hsome
      refine ⟨found', ?_⟩
      cases hguarded with
      | kept hrest =>
          exact avatarLayer?_cons_eq_empty_iff.2 ⟨hfound', hlater.imp_right hrest.nextRegistration?_none⟩
      | @guard _ _ _ written guard hne hguard hstart hregistered hrest =>
          have hlf : c ≠ '\n' := by
            rintro rfl
            simp [throughRegistration?_lf] at hregistered
          obtain ⟨d, tail, rfl⟩ := List.exists_cons_of_ne_nil hne
          rw [unbroken_cons] at hguard
          -- No line starts within the guard or right behind it.
          have hbehind : nextRegistration? (lastOr d tail) (c :: written) = none := by
            have hwithin := startsLine_of_withinLine ⟨_, rfl, endsLine_lastOr hguard.1 hguard.2⟩ (some c)
            rw [← Option.not_isSome_iff_eq_none, isSome_nextRegistration?_cons, hwithin,
              hrest.nextRegistration?_none (hlater.resolve_left hlf)]
            simp
          have hwithin : nextRegistration? d (tail ++ c :: written) = none := by
            rw [nextRegistration?_within hguard.1 hguard.2, hbehind]
            rfl
          exact avatarLayer?_cons_eq_empty_iff.2 ⟨hfound', .inr hwithin⟩

/-- Guards behind the suffix of an avatar's tag leave it the suffix. -/
theorem exists_avatarLayer? (hguarded : GuardsLines (some (lastOr before suffix)) t guarded)
    (h : avatarLayer? before (suffix ++ t) = some ⟨suffix, found⟩) :
    ∃ found', avatarLayer? before (suffix ++ guarded) = some ⟨suffix, found'⟩ := by
  induction suffix generalizing before with
  | nil => exact hguarded.exists_avatarLayer?_empty h
  | cons c suffix ih =>
      rw [List.cons_append, avatarLayer?_cons, Option.or_eq_some_iff] at h
      rcases h with hlonger | ⟨-, hempty⟩
      · split at hlonger
        · contradiction
        · rename_i hlf
          obtain ⟨⟨suffix', later⟩, hlater, heq⟩ := Option.map_eq_some_iff.1 hlonger
          obtain ⟨rfl, rfl⟩ : suffix' = suffix ∧ later = found := by simpa using heq
          rw [lastOr_cons] at hguarded
          obtain ⟨found', hfound'⟩ := ih hguarded hlater
          exact ⟨found', by rw [List.cons_append, avatarLayer?_cons, if_neg hlf, hfound']; rfl⟩
      · obtain ⟨_, -, heq⟩ := Option.map_eq_some_iff.1 hempty
        cases heq

/-- Guards behind the digits of a hair or eyes tag leave it the digits. -/
theorem exists_variantLayer? (hguarded : GuardsLines (some (lastOr before suffix)) t guarded)
    (h : variantLayer? before (suffix ++ t) = some ⟨suffix, found⟩) :
    ∃ found', variantLayer? before (suffix ++ guarded) = some ⟨suffix, found'⟩ := by
  obtain ⟨hne, hdigits⟩ := suffix_of_variantLayer? h
  have hends : Ends Char.isDigit t := by
    simp only [variantLayer?] at h
    split at h
    · contradiction
    · obtain ⟨_, -, heq⟩ := Option.map_eq_some_iff.1 h
      have hrun : (suffix ++ t).takeWhile Char.isDigit = suffix := congrArg TaggedLayer.suffix heq
      have hwhole := List.takeWhile_append_dropWhile (p := Char.isDigit) (l := suffix ++ t)
      rw [hrun, List.append_cancel_left_eq] at hwhole
      exact hwhole ▸ ends_dropWhile _
  have hlast : (lastOr before suffix).isDigit = true := by
    obtain ⟨early, last, rfl⟩ := (List.eq_nil_or_concat suffix).resolve_left hne
    simpa [lastOr] using hdigits last (by simp)
  have hhead := hguarded.head?_of_within ⟨_, rfl, endsLine_of_isDigit hlast⟩
  have hends' : Ends Char.isDigit guarded := by rwa [Ends, hhead]
  rw [variantLayer?_append hne hdigits hends] at h
  obtain ⟨_, hnext, -⟩ := Option.map_eq_some_iff.1 h
  have hsome := hguarded.isSome_nextRegistration?_iff.2 (Option.isSome_of_mem hnext)
  obtain ⟨found', hfound'⟩ := Option.isSome_iff_exists.1 hsome
  exact ⟨found', by rw [variantLayer?_append hne hdigits hends', hfound']; rfl⟩

end GuardsLines

namespace LayerGate

variable {gate : LayerGate}

/-- A tag is one of a layer exactly if a registration line starts somewhere behind it; those of hair and eyes need a
    digit too. -/
theorem isSome_layer?_iff {t : Text} :
    (gate.layer? t).isSome ↔ ∃ rest, t = gate.tag ++ rest
      ∧ (gate.kind ≠ .avatar → rest.head?.any Char.isDigit = true)
      ∧ (nextRegistration? (lastOr ' ' gate.tag) rest).isSome := by
  rw [layer?]
  cases hstrip : Text.strip? gate.tag t with
  | none =>
      constructor
      · intro h
        contradiction
      · rintro ⟨rest, hwhole, -⟩
        rw [Text.strip?_eq_some_iff.2 hwhole] at hstrip
        contradiction
  | some rest =>
      have hsame : ∀ rest', t = gate.tag ++ rest' ↔ rest' = rest := fun rest' => by
        rw [← Text.strip?_eq_some_iff, hstrip, Option.some.injEq, eq_comm]
      simp only [hsame, exists_eq_left]
      rw [Option.bind_eq_bind, Option.bind_some]
      cases hkind : gate.kind with
      | avatar => simp [isSome_avatarLayer?_iff]
      | hair | eyes => simp [isSome_variantLayer?_iff gate.endsLine_lastOr_tag]

end LayerGate

namespace GuardsLines

variable {gate : LayerGate}

/-- Where no layer is recognized, none is in a guarded text. -/
theorem layer?_eq_none {c : Char} {t guarded : Text} (hguarded : GuardsLines (some c) t guarded)
    (h : gate.layer? (c :: t) = none) : gate.layer? (c :: guarded) = none := by
  rw [← Option.not_isSome_iff_eq_none] at h ⊢
  refine mt (fun hsome => ?_) h
  obtain ⟨rest, hwhole, hdigit, hnext⟩ := LayerGate.isSome_layer?_iff.1 hsome
  obtain ⟨tail, htail⟩ : ∃ tail, gate.tag = '/' :: tail := ⟨_, rfl⟩
  have hunbroken := gate.unbroken_tag
  rw [htail, unbroken_cons] at hunbroken
  rw [htail] at hwhole
  obtain ⟨rfl, rfl⟩ := List.cons.inj hwhole
  obtain ⟨below, rfl, hbelow⟩ := hguarded.of_within ⟨'/', rfl, rfl⟩ hunbroken.2
  have hlast : tail.getLast?.or (some '/') = some (lastOr ' ' gate.tag) := by
    rw [getLast?_or_eq_lastOr, htail, lastOr_cons]
  rw [hlast] at hbelow
  have hhead := hbelow.head?_of_within ⟨_, rfl, gate.endsLine_lastOr_tag⟩
  exact LayerGate.isSome_layer?_iff.2
    ⟨below, by rw [htail, List.cons_append], hhead ▸ hdigit, hbelow.isSome_nextRegistration?_iff.1 hnext⟩

/-- A tag of a layer is one in a guarded text, with the same suffix, and its line is the nearest one behind that. -/
theorem exists_layer? {t guarded : Text} {layer : TaggedLayer} (h : gate.layer? t = some layer)
    (hguarded : GuardsLines (some (lastOr ' ' (gate.tag ++ layer.suffix))) layer.registered.whole guarded) :
    ∃ found, gate.layer? (gate.tag ++ layer.suffix ++ guarded) = some ⟨layer.suffix, found⟩
      ∧ nextRegistration? (lastOr ' ' (gate.tag ++ layer.suffix)) guarded = some found := by
  have hwhole := LayerGate.append_whole_of_layer? h
  rw [TaggedLayer.whole] at hwhole
  rw [← hwhole] at h
  rw [lastOr_append] at hguarded
  obtain ⟨found, hfound⟩ : ∃ found,
      gate.layer? (gate.tag ++ (layer.suffix ++ guarded)) = some ⟨layer.suffix, found⟩ := by
    rw [LayerGate.layer?, Text.strip?_eq_some_iff.2 rfl, Option.bind_eq_bind, Option.bind_some] at h ⊢
    cases hkind : gate.kind with
    | avatar =>
        simp only [hkind] at h
        exact hguarded.exists_avatarLayer? h
    | hair | eyes =>
        simp only [hkind] at h
        exact hguarded.exists_variantLayer? h
  have hbelow : found.whole = guarded := by
    have hwritten := LayerGate.append_whole_of_layer? hfound
    simpa [TaggedLayer.whole] using hwritten
  have hnext := LayerGate.nextRegistration?_of_layer? hfound
  rw [hbelow] at hnext
  exact ⟨found, by rw [List.append_assoc, hfound], hnext⟩

end GuardsLines

/-! ### A second pass -/

/-- A line still ends with its last registration word when guards are put into the text behind it. -/
theorem GuardsLines.throughRegistration?_line {line rest guarded : Text}
    (hguarded : ∀ before, GuardsLines before rest guarded)
    (h : throughRegistration? (line ++ rest) = some (line, rest)) :
    throughRegistration? (line ++ guarded) = some (line, guarded) := by
  induction line with
  | nil =>
      cases rest with
      | nil => contradiction
      | cons c rest => simpa using head?_of_throughRegistration? h
  | cons c line ih =>
      rw [List.cons_append, throughRegistration?] at h
      split at h
      · rename_i found after hfound
        obtain ⟨rfl, rfl⟩ : found = line ∧ after = rest := by simpa using h
        split at hfound
        · contradiction
        · rename_i hlf
          rw [List.cons_append, throughRegistration?, if_neg hlf, ih hfound]
      · rename_i hnone
        obtain ⟨after, hstrip, heq⟩ := Option.map_eq_some_iff.1 h
        obtain ⟨hword, rfl⟩ : registration = c :: line ∧ after = rest := by simpa using heq
        have hlf : c ≠ '\n' := by
          rintro rfl
          have hmem : '\n' ∈ registration := hword ▸ List.mem_cons_self
          exact absurd hmem (by decide)
        have hbehind : throughRegistration? (line ++ guarded) = none := by
          rw [if_neg hlf, ← Option.not_isSome_iff_eq_none] at hnone
          rw [← Option.not_isSome_iff_eq_none]
          have hline : GuardsLines (some c) _ _ := append_left line (hguarded _)
          exact mt hline.isSome_throughRegistration?_iff.1 hnone
        have hhere : Text.strip? registration (c :: (line ++ guarded)) = some guarded :=
          Text.strip?_eq_some_iff.2 (by rw [hword, List.cons_append])
        rw [List.cons_append, throughRegistration?, if_neg hlf, hbehind, hhere, hword]
        rfl

namespace LayerGate

variable {gate : LayerGate} {selection : Text}

/-- The guard of a layer goes in front of a registration line, if it is put in. -/
theorem guardsLines_of_layer? {t inserted guarded : Text} {layer : TaggedLayer} (h : gate.layer? t = some layer)
    (hinserted : Unbroken inserted) (hguarded : ∀ before, GuardsLines before layer.registered.rest guarded) :
    GuardsLines (some (lastOr ' ' (gate.tag ++ layer.suffix))) layer.registered.whole
      (layer.registered.gap ++ (inserted ++ layer.registered.line ++ guarded)) := by
  obtain ⟨c, tail, hline, hstart⟩ := startsLine_of_layer? h
  have hthrough := throughRegistration?_of_nextRegistration? (nextRegistration?_of_layer? h)
  have hbehind : GuardsLines (some c) (tail ++ layer.registered.rest) (tail ++ guarded) :=
    GuardsLines.append_left tail (hguarded _)
  rw [Registration.whole, List.append_assoc]
  refine GuardsLines.append_left _ ?_
  rw [getLast?_or_eq_lastOr, ← lastOr_append, hline, List.cons_append]
  rw [hline, List.cons_append] at hthrough
  cases inserted with
  | nil => exact .kept hbehind
  | cons d inserted =>
      have hguard := GuardsLines.guard (List.cons_ne_nil _ _) hinserted hstart (Option.isSome_of_mem hthrough) hbehind
      simpa using hguard

theorem unbroken_inserted (hselection : WrittenIn argumentChar selection) {t : Text} {layer : TaggedLayer}
    (h : gate.layer? t = some layer) : Unbroken (gate.inserted selection layer) := by
  rcases gate.inserted_cases selection layer with hguard | ⟨hnone, -⟩
  · rw [hguard]
    exact (gate.isGuardText_of_isGuard hselection ⟨layer.suffix, gate.variant_of_layer? h, rfl⟩).unbroken
  · exact hnone ▸ unbroken_nil

/-- A layer as a pass leaves it: its line starts with the guard, and behind it is what the pass writes later. -/
def guarded (gate : LayerGate) (selection : Text) (layer : TaggedLayer) (later : Text) : TaggedLayer :=
  ⟨layer.suffix, layer.registered.gap, gate.inserted selection layer ++ layer.registered.line, later⟩

/-- No guard is put in front of a line a second time. -/
theorem inserted_guarded (gate : LayerGate) (selection : Text) (layer : TaggedLayer) (later : Text) :
    gate.inserted selection (gate.guarded selection layer later) = [] :=
  if_pos (List.isPrefixOf_iff_prefix.2 (gate.guard_prefix_inserted selection layer))

/-- A layer is found again as a pass leaves it. -/
theorem layer?_guarded (hselection : WrittenIn argumentChar selection) {t later : Text} {layer : TaggedLayer}
    (h : gate.layer? t = some layer) (hlater : ∀ before, GuardsLines before layer.registered.rest later) :
    gate.layer? (gate.tag ++ (gate.guarded selection layer later).whole)
      = some (gate.guarded selection layer later) := by
  have hinserted := unbroken_inserted hselection h
  obtain ⟨found, hfound, hnext⟩ := (guardsLines_of_layer? h hinserted hlater).exists_layer? h
  -- The search finds the same line, with the guard in front: neither the gap nor the line has changed.
  have hgap := nextRegistration?_of_layer? h
  have hline := GuardsLines.throughRegistration?_line hlater (throughRegistration?_of_nextRegistration? hgap)
  have hguarded : throughRegistration? (gate.inserted selection layer ++ layer.registered.line ++ later)
      = some (gate.inserted selection layer ++ layer.registered.line, later) := by
    rw [List.append_assoc, throughRegistration?_append hinserted hline]
  rw [Registration.whole, List.append_assoc] at hgap
  obtain rfl := Option.some.inj (hnext.symm.trans (nextRegistration?_of_gap hgap hguarded))
  simpa [guarded, TaggedLayer.whole, Registration.whole] using hfound

/-- A pass of a gate guards registration lines. -/
theorem guardsLines_script (gate : LayerGate) (hselection : WrittenIn argumentChar selection) (before : Option Char)
    (t : Text) : GuardsLines before t ((gate.recognizer selection).script t).result := by
  refine gate.layer_induction selection (motive := fun t s => ∀ before, GuardsLines before t s.result) .nil
    (fun c rest _ hrest before => ?kept) (fun layer hlayer _ hrest before => ?accessory)
    (fun layer hlayer _ hrest before => ?guarded) t before
  case kept =>
    have hkept := hrest (some c)
    simpa [Edit.result] using hkept.kept
  case accessory =>
    simpa [Edit.result, TaggedLayer.whole] using GuardsLines.append_left (gate.tag ++ layer.suffix) (hrest _)
  case guarded =>
    have hline := guardsLines_of_layer? hlayer (unbroken_inserted hselection hlayer) hrest
    rw [← gate.getLast?_tag_append_or before] at hline
    simpa [Edit.result, TaggedLayer.whole] using hline.append_left (gate.tag ++ layer.suffix)

/-- A second pass over what a pass has written changes nothing, and it counts the same. -/
theorem script_result_script (gate : LayerGate) (hselection : WrittenIn argumentChar selection) (t : Text) :
    let once := (gate.recognizer selection).script t
    let again := (gate.recognizer selection).script once.result
    again.result = once.result ∧ again.swaps = once.swaps := by
  refine gate.layer_induction selection (motive := fun _ s =>
      ((gate.recognizer selection).script s.result).result = s.result
        ∧ ((gate.recognizer selection).script s.result).swaps = s.swaps) ⟨rfl, rfl⟩
    (fun c rest hnone hrest => ?kept) (fun layer hlayer haccessory hrest => ?accessory)
    (fun layer hlayer haccessory hrest => ?guarded) t
  case kept =>
    have hwritten := gate.guardsLines_script hselection (some c) rest
    have hhere := gate.recognizer_eq_none selection (hwritten.layer?_eq_none hnone) none
    have hscript := Recognizer.script_cons_of_none (fun _ _ => rfl) hhere
    simpa [Edit.result, hscript] using hrest
  case accessory =>
    have hwritten := gate.guardsLines_script hselection
      (some (lastOr ' ' (gate.tag ++ layer.suffix))) layer.registered.whole
    obtain ⟨found, hfound, hnext⟩ := hwritten.exists_layer? hlayer
    have hbelow := whole_of_nextRegistration? hnext
    have hagain : gate.layer? (gate.tag ++ (TaggedLayer.mk layer.suffix found).whole) = some ⟨layer.suffix, found⟩ := by
      rw [TaggedLayer.whole, hbelow, ← List.append_assoc, hfound]
    have hscript := script_of_accessory selection hagain haccessory
    rw [TaggedLayer.whole, hbelow] at hscript
    simpa [Edit.result, hscript] using hrest
  case guarded =>
    have hwritten := fun before => gate.guardsLines_script hselection before layer.registered.rest
    have hscript := script_of_guarded selection (layer?_guarded hselection hlayer hwritten) haccessory
    simp only [inserted_guarded] at hscript
    simp only [guarded, TaggedLayer.whole, Registration.whole, List.append_assoc] at hscript
    simpa [Edit.result, hscript] using hrest

end LayerGate

end CanvasExport.Rule
