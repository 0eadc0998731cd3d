/-
Module: CanvasExport.Proofs.Rule.Coverage
Layer: Proofs
Purpose: Which tags get their guard. A gate that waits with the guard of one tag takes no notice of the next one, and
  it reads on only behind the last registration word of the line that it has guarded. A tag that no other tag of
  its gate stands in the way of is the one that the gate waits with at the nearest registration line, and whatever
  other gates do, that line starts with guards among which is the tag's own.
Main exports: LayerGate.suffixes, LayerGate.Unhidden, isSome_throughRegistration?_iff, LayerGate.waitingAt,
  LayerGate.exists_tag_of_waitingAt, LayerGate.waitingAt_of_unhidden, getElem?_guardedLines,
  exists_chain_of_waitingAt
-/
import CanvasExport.Proofs.Rule.Gates
import Mathlib.Data.List.Induction

namespace CanvasExport.Rule

/-! ### Tags and registration lines -/

theorem isSome_strip?_iff {needle t : Text} : (Text.strip? needle t).isSome ↔ needle <+: t := by
  rw [Option.isSome_iff_exists]
  exact exists_congr fun after => Text.strip?_eq_some_iff.trans eq_comm

/-- A registration line is one that holds the registration word. -/
theorem isSome_throughRegistration?_iff {content : Text} (h : Unbroken content) :
    (throughRegistration? content).isSome ↔ registration <:+: content := by
  induction content with
  | nil =>
      have hne : registration ≠ [] := by decide
      simp [throughRegistration?, hne]
  | cons c rest ih =>
      rw [unbroken_cons] at h
      have hlf : c ≠ '\n' := by
        rintro rfl
        exact absurd h.1 (by decide)
      rw [throughRegistration?_cons hlf, Option.isSome_or, Option.isSome_map, Option.isSome_map, Bool.or_eq_true,
        ih h.2, isSome_strip?_iff, List.infix_cons_iff, or_comm]

theorem throughRegistration?_eq_none_iff {content : Text} (h : Unbroken content) :
    throughRegistration? content = none ↔ ¬ registration <:+: content := by
  rw [← isSome_throughRegistration?_iff h, Option.not_isSome_iff_eq_none]

namespace LayerGate

variable (gate : LayerGate)

/-- The suffixes of all tags of the gate in a text, from left to right. -/
def suffixes : Text → List Text
  | [] => []
  | c :: rest => (gate.suffix? (c :: rest)).toList ++ suffixes rest

/-- Whether a suffix asks for a guard: an avatar's does not if it names an accessory. -/
def Asks (suffix : Text) : Prop :=
  ¬ (gate.kind = .avatar ∧ isAccessory suffix = true)

instance (suffix : Text) : Decidable (gate.Asks suffix) :=
  inferInstanceAs (Decidable (¬ (gate.kind = .avatar ∧ isAccessory suffix = true)))

/-- No other tag of the gate stands in the way of the tag at `here`. None stands in front of it on its line, and
    behind each that asks for a guard on a line above there is a registration line: a whole line above the tag,
    or the tag's own line, whose last registration word is then in front of the tag. -/
structure Unhidden (earlier : List Text) (above here : Text) : Prop where
  first : gate.suffixes (above ++ here) = gate.suffixes here
  served : ∀ before content after, earlier = before ++ content :: after →
    (∃ suffix ∈ gate.suffixes content, gate.Asks suffix) →
      (∃ line ∈ after, registration <:+: line) ∨ (registration <:+: above ∧ ¬ registration <:+: here)

variable (selection : Text)

theorem head?_suffixes (t : Text) : (gate.suffixes t).head? = gate.firstSuffix? t := by
  induction t with
  | nil => rfl
  | cons c rest ih =>
      rw [suffixes, firstSuffix?, List.head?_append, ih]
      cases gate.suffix? (c :: rest) <;> rfl

/-- The tags of a text are those that start in its first part and those of the other part. -/
theorem exists_suffixes_append (above here : Text) :
    ∃ front, gate.suffixes (above ++ here) = front ++ gate.suffixes here := by
  induction above with
  | nil => exact ⟨[], rfl⟩
  | cons c above ih =>
      obtain ⟨front, hfront⟩ := ih
      exact ⟨(gate.suffix? (c :: (above ++ here))).toList ++ front, by rw [List.cons_append, suffixes, hfront,
        List.append_assoc]⟩

/-- A guard is asked for by the first tag. -/
theorem guardFor?_eq (t : Text) :
    gate.guardFor? selection t = (gate.suffixes t).head?.bind fun suffix =>
      if gate.Asks suffix then some (gate.guard selection suffix) else none := by
  rw [head?_suffixes, guardFor?]
  refine Option.bind_congr fun suffix _ => ?_
  by_cases hkind : gate.kind = .avatar <;> cases hname : isAccessory suffix <;> simp [Asks, hkind, hname]

theorem exists_suffix_of_guardFor? (front : Text) {t guard : Text} (h : gate.guardFor? selection t = some guard) :
    ∃ suffix ∈ gate.suffixes (front ++ t), gate.Asks suffix := by
  rw [guardFor?_eq] at h
  obtain ⟨suffix, hfirst, h⟩ := Option.bind_eq_some_iff.1 h
  split at h
  · rename_i hasks
    obtain ⟨skipped, hwhole⟩ := gate.exists_suffixes_append front t
    exact ⟨suffix, hwhole ▸ List.mem_append_right _ (List.mem_of_mem_head? hfirst), hasks⟩
  · contradiction

theorem exists_cons_of_suffix? {here suffix : Text} (h : gate.suffix? here = some suffix) :
    ∃ rest, here = '/' :: rest := by
  cases here with
  | nil =>
      cases hstrip : Text.strip? gate.tag [] with
      | none => simp [suffix?, hstrip] at h
      | some rest =>
          have hnil := (List.append_eq_nil_iff.1 (Text.strip?_eq_some_iff.1 hstrip).symm).1
          exact absurd hnil gate.tag_ne_nil
  | cons c rest =>
      by_cases hc : c = '/'
      · exact ⟨rest, by rw [hc]⟩
      · rw [gate.suffix?_cons_of_ne hc] at h
        contradiction

theorem head?_suffixes_of_suffix? {here suffix : Text} (h : gate.suffix? here = some suffix) :
    (gate.suffixes here).head? = some suffix := by
  obtain ⟨rest, rfl⟩ := gate.exists_cons_of_suffix? h
  simp [suffixes, h]

/-! ### What a gate waits with -/

/-- What the gate waits with behind the lines. -/
def waitingAt (contents : List Text) : Option Text :=
  contents.foldl (gate.next selection) none

theorem waitingAt_append_singleton (contents : List Text) (content : Text) :
    gate.waitingAt selection (contents ++ [content])
      = gate.next selection (gate.waitingAt selection contents) content := by
  simp [waitingAt]

theorem waits_waitingAt (contents : List Text) : gate.Waits selection (gate.waitingAt selection contents) := by
  induction contents using List.reverseRecOn with
  | nil => exact gate.waits_none selection
  | append_singleton contents content ih =>
      rw [waitingAt_append_singleton]
      exact gate.waits_next ih content

/-- A gate that waits has passed a tag and no registration line since. -/
theorem exists_tag_of_waitingAt {contents : List Text} {guard : Text}
    (h : gate.waitingAt selection contents = some guard) :
    ∃ before content after, contents = before ++ content :: after
      ∧ (∃ suffix ∈ gate.suffixes content, gate.Asks suffix)
      ∧ ∀ line ∈ after, throughRegistration? line = none := by
  induction contents using List.reverseRecOn with
  | nil => contradiction
  | append_singleton contents content ih =>
      rw [waitingAt_append_singleton] at h
      cases hwaiting : gate.waitingAt selection contents with
      | none =>
          rw [hwaiting, next] at h
          exact ⟨contents, content, [], rfl, gate.exists_suffix_of_guardFor? selection [] h, by simp⟩
      | some waits =>
          rw [hwaiting, next] at h
          cases hthrough : throughRegistration? content with
          | some found =>
              rw [hthrough] at h
              have htag := gate.exists_suffix_of_guardFor? selection found.1 h
              rw [append_of_throughRegistration? hthrough] at htag
              exact ⟨contents, content, [], rfl, htag, by simp⟩
          | none =>
              rw [hthrough] at h
              obtain ⟨before, tagged, after, rfl, htag, hsilent⟩ := ih (hwaiting.trans h)
              refine ⟨before, tagged, after ++ [content], by simp, htag, ?_⟩
              simpa [or_imp, forall_and, hthrough] using hsilent

/-- Lines without a registration word leave a gate waiting. -/
theorem waitingAt_append_of_silent {contents between : List Text} {guard : Text}
    (h : gate.waitingAt selection contents = some guard)
    (hbetween : ∀ line ∈ between, throughRegistration? line = none) :
    gate.waitingAt selection (contents ++ between) = some guard := by
  induction between using List.reverseRecOn with
  | nil => simpa using h
  | append_singleton between line ih =>
      have hwaiting := ih fun line hmem => hbetween line (List.mem_append_left _ hmem)
      rw [← List.append_assoc, waitingAt_append_singleton, hwaiting, next, hbetween line (by simp)]

/-- Behind the line of a tag that nothing stands in the way of, the gate waits with the tag's guard. -/
theorem waitingAt_of_unhidden {earlier : List Text} {above here suffix : Text} (hline : Unbroken (above ++ here))
    (hearlier : ∀ line ∈ earlier, Unbroken line) (hsuffix : gate.suffix? here = some suffix)
    (hasks : gate.Asks suffix) (h : gate.Unhidden earlier above here) :
    gate.waitingAt selection (earlier ++ [above ++ here]) = some (gate.guard selection suffix) := by
  have hguard : ∀ t, gate.suffixes t = gate.suffixes here →
      gate.guardFor? selection t = some (gate.guard selection suffix) := by
    intro t ht
    rw [guardFor?_eq, ht, gate.head?_suffixes_of_suffix? hsuffix, Option.bind_some, if_pos hasks]
  rw [waitingAt_append_singleton]
  cases hwaiting : gate.waitingAt selection earlier with
  | none => exact hguard _ h.first
  | some waits =>
      obtain ⟨before, content, after, rfl, htag, hsilent⟩ := gate.exists_tag_of_waitingAt selection hwaiting
      rcases h.served before content after rfl htag with ⟨line, hmem, hoccurs⟩ | ⟨habove, hhere⟩
      · have hunbroken : Unbroken line := hearlier line (by simp [hmem])
        exact absurd hoccurs ((throughRegistration?_eq_none_iff hunbroken).1 (hsilent line hmem))
      · -- The tag starts with a slash, so the last registration word lies wholly in front of it.
        obtain ⟨rest, rfl⟩ := gate.exists_cons_of_suffix? hsuffix
        rw [unbroken_append, unbroken_cons] at hline
        have hbehind : throughRegistration? rest = none := by
          rw [throughRegistration?_eq_none_iff hline.2.2]
          exact fun hoccurs => hhere (hoccurs.trans (List.suffix_cons _ _).isInfix)
        obtain ⟨found, hthrough⟩ := Option.isSome_iff_exists.1 ((isSome_throughRegistration?_iff hline.1).2 habove)
        have hwhole := throughRegistration?_append_cons hline.1 (c := '/') (by decide) (by decide) rest
        rw [hbehind, hthrough] at hwhole
        simp only [next, hwhole, Option.map_none, Option.map_some, Option.none_or]
        apply hguard
        obtain ⟨front, hfront⟩ := gate.exists_suffixes_append found.1 (found.2 ++ '/' :: rest)
        obtain ⟨front', hfront'⟩ := gate.exists_suffixes_append found.2 ('/' :: rest)
        have hfirst := h.first
        rw [← append_of_throughRegistration? hthrough, List.append_assoc, hfront, hfront', ← List.append_assoc,
          List.append_left_eq_self, List.append_eq_nil_iff] at hfirst
        rw [hfront', hfirst.2, List.nil_append]

end LayerGate

/-! ### What stands in front of the registration line -/

theorem exists_getElem?_of_forall₂ {α β : Type} {R : α → β → Prop} {as : List α} {bs : List β}
    (h : List.Forall₂ R as bs) {n : Nat} {a : α} (ha : as[n]? = some a) : ∃ b, bs[n]? = some b ∧ R a b := by
  induction h generalizing n with
  | nil => simp at ha
  | cons hhead _ ih =>
      cases n with
      | zero =>
          obtain rfl : _ = a := by simpa using ha
          exact ⟨_, rfl, hhead⟩
      | succ n => exact ih (by simpa using ha)

namespace LayerGate

variable {gate : LayerGate} {selection : Text}

/-- A pass puts in front of each line what the lines above make the gate insert. -/
theorem getElem?_guardedLines (gate : LayerGate) (selection : Text) (waiting : Option Text) (contents : List Text)
    (n : Nat) : (gate.guardedLines selection waiting contents)[n]? = contents[n]?.map fun content =>
      (insertion? ((contents.take n).foldl (gate.next selection) waiting) content).getD [] ++ content := by
  induction contents generalizing waiting n with
  | nil => simp [guardedLines]
  | cons content contents ih =>
      cases n with
      | zero => simp [guardedLines]
      | succ n => simpa [guardedLines] using ih (gate.next selection waiting content) n

/-- Guards on the lines do not change what a gate waits with below them. -/
theorem foldl_next_guarded {gates : List LayerGate} (hselection : WrittenIn argumentChar selection)
    {contents lines : List Text} (h : List.Forall₂ (GuardedBy selection gates) contents lines)
    (waiting : Option Text) :
    lines.foldl (gate.next selection) waiting = contents.foldl (gate.next selection) waiting := by
  induction h generalizing waiting with
  | nil => rfl
  | cons hline _ ih => rw [List.foldl_cons, List.foldl_cons, (hline.asks hselection gate waiting).2, ih]

/-- A registration line for which a gate waits starts with that gate's guard after the pass. -/
theorem prefix_guarded (guard : Text) {content : Text} (hregistered : (throughRegistration? content).isSome) :
    guard <+: (insertion? (some guard) content).getD [] ++ content := by
  obtain ⟨found, hthrough⟩ := Option.isSome_iff_exists.1 hregistered
  rw [insertion?_of_registered guard hthrough]
  split
  · rename_i hstarts
    have hhead : guard <+: found.1 := List.isPrefixOf_iff_prefix.1 hstarts
    exact hhead.trans ⟨found.2, append_of_throughRegistration? hthrough⟩
  · exact List.prefix_append _ _

end LayerGate

/-- A registration line that a gate waits for starts, after all passes, with guards among which is the one that
    the gate waits with. -/
theorem exists_chain_of_waitingAt {selection : Text} (hselection : WrittenIn argumentChar selection)
    {gates : List LayerGate} {gate : LayerGate} (hgate : gate ∈ gates) {contents : List Text} {n : Nat}
    {line guard : Text} (hline : contents[n]? = some line) (hregistered : (throughRegistration? line).isSome)
    (hwaiting : gate.waitingAt selection (contents.take n) = some guard) :
    ∃ chain rest, GuardChain selection gates (chain ++ guard) ∧ line <:+ chain ++ guard ++ rest
      ∧ (gatedLines selection gates contents)[n]? = some (chain ++ guard ++ rest) := by
  obtain ⟨before, after, rfl⟩ := List.append_of_mem hgate
  have hgates : gatedLines selection (before ++ gate :: after) contents
      = gatedLines selection after (gate.guardedLines selection none (gatedLines selection before contents)) := by
    rw [gatedLines, List.foldl_append, List.foldl_cons]
    rfl
  have hearly := forall₂_gatedLines selection before contents
  have hlate := forall₂_gatedLines selection after
    (gate.guardedLines selection none (gatedLines selection before contents))
  -- The gate finds the line behind the guards of the gates that run before it, and waits with the same guard.
  obtain ⟨found, hfound, hguarded⟩ := exists_getElem?_of_forall₂ hearly hline
  have hregistered' : (throughRegistration? found).isSome := by
    rcases guardedBy_cases hselection hguarded with rfl | ⟨inner, hinner, -, rfl⟩
    · exact hregistered
    · obtain ⟨through, hthrough⟩ := Option.isSome_iff_exists.1 hregistered
      rw [throughRegistration?_append hinner.unbroken hthrough]
      rfl
  have hwaiting' : ((gatedLines selection before contents).take n).foldl (gate.next selection) none = some guard :=
    (LayerGate.foldl_next_guarded hselection (List.forall₂_take n hearly) none).trans hwaiting
  have hpass := gate.getElem?_guardedLines selection none (gatedLines selection before contents) n
  rw [hfound, hwaiting', Option.map_some] at hpass
  obtain ⟨rest, hrest⟩ := LayerGate.prefix_guarded guard hregistered'
  rw [← hrest] at hpass
  -- The gates that run after it put their guards in front.
  obtain ⟨out, hout, chain, hchain, -, rfl⟩ := exists_getElem?_of_forall₂ hlate hpass
  have hguard : GuardChain selection [gate] guard := by
    simpa using GuardChain.cons (List.mem_singleton_self gate) (gate.waits_waitingAt selection _ guard hwaiting) .nil
  have hinner : line <:+ guard ++ rest := by
    rw [hrest]
    exact (suffix_of_guardedBy hguarded).trans (List.suffix_append _ _)
  refine ⟨chain, rest, (hchain.mono ?_).append (hguard.mono ?_), ?_, by rw [hgates, hout, List.append_assoc]⟩
  · exact fun other hmem => List.mem_append_right _ (List.mem_cons_of_mem _ hmem)
  · simp
  · rw [List.append_assoc]
    exact hinner.trans (List.suffix_append _ _)

end CanvasExport.Rule
