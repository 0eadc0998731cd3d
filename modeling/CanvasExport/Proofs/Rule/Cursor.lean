/-
Module: CanvasExport.Proofs.Rule.Cursor
Layer: Proofs
Purpose: The pass of a gate by byte positions. The loop keeps the position up to which its text is done with, looks for
  the first match from there on, and copies slices of the text between the places that the match names. A slice may
  fail, and a search may start where there is no character; in a pass neither happens. Each iteration ends behind the
  place at which it started and uses up a tag, so the loop comes to an end, and it writes what the pass writes.
Main exports: Text.splitBytes?_eq_some_iff, Text.slice?_eq_some_iff, Captures, LayerGate.iterate?, LayerGate.Runs,
  LayerGate.Between, LayerGate.iterate?_of_between, LayerGate.exists_runs
-/
import CanvasExport.Proofs.Rule.Coverage
import CanvasExport.Proofs.Rule.Pattern
import CanvasExport.Proofs.Text.Occurrences

namespace CanvasExport

/-! ### Slices -/

namespace Text

/-- The text before a byte position and the text behind it. There is none for a position behind the text or within
    the bytes of a character. -/
def splitBytes? : (position : Nat) → Text → Option (Text × Text)
  | 0, t => some ([], t)
  | _ + 1, [] => none
  | position + 1, c :: rest =>
    if c.utf8Size ≤ position + 1 then
      (splitBytes? (position + 1 - c.utf8Size) rest).map fun (front, back) => (c :: front, back)
    else
      none

theorem splitBytes?_append (front back : Text) :
    splitBytes? (byteLength front) (front ++ back) = some (front, back) := by
  induction front with
  | nil => rw [byteLength_nil, List.nil_append, splitBytes?]
  | cons c front ih =>
      have hpos := c.utf8Size_pos
      obtain ⟨position, hposition⟩ : ∃ position, c.utf8Size + byteLength front = position + 1 :=
        ⟨c.utf8Size + byteLength front - 1, by omega⟩
      have hbehind : position + 1 - c.utf8Size = byteLength front := by omega
      rw [byteLength_cons, hposition, List.cons_append, splitBytes?, if_pos (by omega), hbehind, ih, Option.map_some]

theorem splitBytes?_eq_some_iff {position : Nat} {t front back : Text} :
    splitBytes? position t = some (front, back) ↔ t = front ++ back ∧ byteLength front = position := by
  refine ⟨fun h => ?_, fun ⟨hwhole, hposition⟩ => hwhole ▸ hposition ▸ splitBytes?_append front back⟩
  induction t generalizing position front with
  | nil =>
      cases position with
      | zero =>
          obtain ⟨rfl, rfl⟩ : [] = front ∧ [] = back := by simpa [splitBytes?] using h
          exact ⟨rfl, rfl⟩
      | succ position => contradiction
  | cons c rest ih =>
      cases position with
      | zero =>
          obtain ⟨rfl, rfl⟩ : [] = front ∧ c :: rest = back := by simpa [splitBytes?] using h
          exact ⟨rfl, rfl⟩
      | succ position =>
          rw [splitBytes?] at h
          split at h
          · obtain ⟨⟨front, back⟩, hsplit, heq⟩ := Option.map_eq_some_iff.1 h
            obtain ⟨rfl, rfl⟩ := Prod.mk.inj heq
            obtain ⟨rfl, hlength⟩ := ih hsplit
            exact ⟨rfl, by rw [byteLength_cons]; omega⟩
          · contradiction

/-- The piece of a text between two byte positions. There is none if the second position is in front of the first one,
    or if the text cannot be split at both. -/
def slice? (start stop : Nat) (t : Text) : Option Text :=
  (splitBytes? stop t).bind fun split => (splitBytes? start split.1).map Prod.snd

theorem slice?_eq_some_iff {start stop : Nat} {t piece : Text} :
    slice? start stop t = some piece ↔ ∃ above below, t = above ++ piece ++ below
      ∧ byteLength above = start ∧ byteLength (above ++ piece) = stop := by
  constructor
  · intro h
    obtain ⟨⟨front, below⟩, hstop, hfront⟩ := Option.bind_eq_some_iff.1 h
    obtain ⟨⟨above, found⟩, hstart, rfl⟩ := Option.map_eq_some_iff.1 hfront
    obtain ⟨rfl, hlength⟩ := splitBytes?_eq_some_iff.1 hstop
    obtain ⟨rfl, habove⟩ := splitBytes?_eq_some_iff.1 hstart
    exact ⟨above, below, rfl, habove, hlength⟩
  · rintro ⟨above, below, rfl, rfl, rfl⟩
    rw [slice?, splitBytes?_append, Option.bind_some, splitBytes?_append, Option.map_some]

end Text

namespace Rule

/-! ### The loop -/

/-- Where the parts of a match stand, as byte positions. The line starts where the head ends. -/
structure Captures where
  suffixStart : Nat
  suffixEnd : Nat
  headEnd : Nat
  lineEnd : Nat
deriving DecidableEq, Repr, Inhabited

/-- What the loop keeps between two iterations. -/
structure Cursor where
  /-- The byte up to which the text is done with. -/
  position : Nat
  written : Text
  /-- How many layers have been guarded. -/
  counted : Nat
  /-- How many tags of accessories have been passed. -/
  passed : Nat
deriving DecidableEq, Repr, Inhabited

def Cursor.start : Cursor :=
  ⟨0, [], 0, 0⟩

/-- How an iteration ends: the loop goes on, or it is over. -/
inductive Iteration where
  | again (next : Cursor)
  | over (last : Cursor)
deriving DecidableEq, Repr, Inhabited

namespace LayerGate

variable (gate : LayerGate) (selection : Text)

/-- The places of a layer whose tag starts at a byte position. -/
def captures (tagStart : Nat) (layer : TaggedLayer) : Captures :=
  let suffixStart := tagStart + gate.tag.byteLength
  let suffixEnd := suffixStart + layer.suffix.byteLength
  let headEnd := suffixEnd + layer.registered.gap.byteLength
  ⟨suffixStart, suffixEnd, headEnd, headEnd + layer.registered.line.byteLength⟩

/-- The first match from a byte position on. The search fails where no character starts and the text does not end. -/
def capturesAt? (t : Text) (position : Nat) : Option (Option Captures) :=
  (t.splitBytes? position).map fun split =>
    (gate.search? split.1.getLast? split.2).map fun found =>
      gate.captures (position + found.1.byteLength) found.2

/-- One iteration of the loop. It fails with the search or with a slice. -/
def iterate? (t : Text) (cursor : Cursor) : Option Iteration := do
  match ← gate.capturesAt? t cursor.position with
  | none =>
    let rest ← t.slice? cursor.position t.byteLength
    return .over { cursor with written := cursor.written ++ rest }
  | some found =>
    let suffix ← t.slice? found.suffixStart found.suffixEnd
    if gate.kind = .avatar && isAccessory suffix then
      let passed ← t.slice? cursor.position found.suffixEnd
      return .again ⟨found.suffixEnd, cursor.written ++ passed, cursor.counted, cursor.passed + 1⟩
    else
      let guard := gate.guard selection suffix
      let head ← t.slice? cursor.position found.headEnd
      let line ← t.slice? found.headEnd found.lineEnd
      return .again ⟨found.lineEnd, cursor.written ++ head ++ (if guard.isPrefixOf line then [] else guard) ++ line,
        cursor.counted + 1, cursor.passed⟩

/-- A run of the loop from a cursor on: the cursors behind its iterations, and what it ends with. -/
inductive Runs (t : Text) : Cursor → List Cursor → Cursor → Prop
  | over {cursor last : Cursor} (h : gate.iterate? selection t cursor = some (.over last)) : Runs t cursor [] last
  | again {cursor next last : Cursor} {cursors : List Cursor}
      (h : gate.iterate? selection t cursor = some (.again next)) (hrest : Runs t next cursors last) :
      Runs t cursor (next :: cursors) last

/-! ### One iteration -/

theorem capturesAt?_append (above rest : Text) :
    gate.capturesAt? (above ++ rest) above.byteLength = some ((gate.search? above.getLast? rest).map fun found =>
      gate.captures (above ++ found.1).byteLength found.2) := by
  rw [capturesAt?, Text.splitBytes?_append, Option.map_some]
  simp only [Text.byteLength_append]

variable {gate} {above rest skipped : Text} {layer : TaggedLayer} {cursor : Cursor}

/-- Without a match the rest of the text is copied. -/
theorem iterate?_over (hposition : cursor.position = above.byteLength) (h : gate.search? above.getLast? rest = none) :
    gate.iterate? selection (above ++ rest) cursor
      = some (.over { cursor with written := cursor.written ++ rest }) := by
  have hrest : Text.slice? above.byteLength (above ++ rest).byteLength (above ++ rest) = some rest :=
    Text.slice?_eq_some_iff.2 ⟨above, [], by rw [List.append_nil], rfl, rfl⟩
  rw [iterate?, hposition, capturesAt?_append, h, Option.map_none]
  simp only [Option.bind_eq_bind, Option.bind_some, hrest]
  rfl

/-- The suffix of a match is the slice between its places. -/
theorem slice?_suffix (h : gate.search? above.getLast? rest = some (skipped, layer)) :
    Text.slice? (gate.captures (above ++ skipped).byteLength layer).suffixStart
      (gate.captures (above ++ skipped).byteLength layer).suffixEnd (above ++ rest) = some layer.suffix := by
  obtain ⟨rfl, -⟩ := gate.of_search? h
  refine Text.slice?_eq_some_iff.2 ⟨above ++ skipped ++ gate.tag, layer.registered.whole, ?_, ?_, ?_⟩
  · simp [TaggedLayer.whole]
  · simp [captures, Nat.add_assoc]
  · simp [captures, Nat.add_assoc]

/-- At the tag of an accessory all up to the end of its suffix is copied. -/
theorem iterate?_accessory (hposition : cursor.position = above.byteLength)
    (h : gate.search? above.getLast? rest = some (skipped, layer))
    (haccessory : (gate.kind = .avatar && isAccessory layer.suffix) = true) :
    let passed := skipped ++ (gate.tag ++ layer.suffix)
    gate.iterate? selection (above ++ rest) cursor = some (.again ⟨(above ++ passed).byteLength,
      cursor.written ++ passed, cursor.counted, cursor.passed + 1⟩) := by
  intro passed
  have hpassed : Text.slice? above.byteLength (above ++ passed).byteLength (above ++ rest) = some passed := by
    refine Text.slice?_eq_some_iff.2 ⟨above, layer.registered.whole, ?_, rfl, rfl⟩
    rw [(gate.of_search? h).1]
    simp [passed, TaggedLayer.whole]
  have hend : (gate.captures (above ++ skipped).byteLength layer).suffixEnd = (above ++ passed).byteLength := by
    simp [captures, passed, Nat.add_assoc]
  have hsuffix := slice?_suffix h
  rw [hend] at hsuffix
  rw [iterate?, hposition, capturesAt?_append, h, Option.map_some]
  simp only [Option.bind_eq_bind, Option.bind_some, hend, hsuffix, haccessory, if_true, hpassed]
  rfl

/-- At any other layer all up to the line is copied, then the guard is put in if it is not there, and the line is
    copied. -/
theorem iterate?_guarded (hposition : cursor.position = above.byteLength)
    (h : gate.search? above.getLast? rest = some (skipped, layer))
    (hguarded : (gate.kind = .avatar && isAccessory layer.suffix) = false) :
    let head := skipped ++ (gate.tag ++ layer.suffix ++ layer.registered.gap)
    gate.iterate? selection (above ++ rest) cursor
      = some (.again ⟨(above ++ head ++ layer.registered.line).byteLength,
        cursor.written ++ head ++ gate.inserted selection layer ++ layer.registered.line, cursor.counted + 1,
        cursor.passed⟩) := by
  intro head
  have hwhole : above ++ rest = above ++ head ++ layer.registered.line ++ layer.registered.rest := by
    rw [(gate.of_search? h).1]
    simp [head, TaggedLayer.whole, Registration.whole]
  have hhead : Text.slice? above.byteLength (above ++ head).byteLength (above ++ rest) = some head :=
    Text.slice?_eq_some_iff.2 ⟨above, layer.registered.line ++ layer.registered.rest, by simp [hwhole], rfl, rfl⟩
  have hline : Text.slice? (above ++ head).byteLength (above ++ head ++ layer.registered.line).byteLength
      (above ++ rest) = some layer.registered.line :=
    Text.slice?_eq_some_iff.2 ⟨above ++ head, layer.registered.rest, hwhole, rfl, rfl⟩
  have hheadEnd : (gate.captures (above ++ skipped).byteLength layer).headEnd = (above ++ head).byteLength := by
    simp [captures, head, Nat.add_assoc]
  have hlineEnd : (gate.captures (above ++ skipped).byteLength layer).lineEnd
      = (above ++ head ++ layer.registered.line).byteLength := by
    simp [captures, head, Nat.add_assoc]
  rw [iterate?, hposition, capturesAt?_append, h, Option.map_some]
  simp only [Option.bind_eq_bind, Option.bind_some, slice?_suffix h, hguarded, Bool.false_eq_true, if_false, hheadEnd,
    hlineEnd, hhead, hline]
  rfl

/-! ### Tags that are used up -/

theorem exists_suffix?_of_layer? {t : Text} (h : gate.layer? t = some layer) :
    ∃ suffix, gate.suffix? t = some suffix := by
  rw [← Option.ne_none_iff_exists']
  intro hnone
  have hlayer := gate.layer?_of_suffix?_eq_none hnone []
  rw [Lines.belowText_nil, List.append_nil, h] at hlayer
  contradiction

/-- Behind the tag of a match there are fewer tags than in the text that was searched. -/
theorem length_suffixes_lt (hlayer : gate.layer? (gate.tag ++ layer.whole) = some layer) {piece behind : Text}
    (hbehind : layer.whole = piece ++ behind) (skipped : Text) :
    (gate.suffixes behind).length < (gate.suffixes (skipped ++ (gate.tag ++ layer.whole))).length := by
  obtain ⟨suffix, hsuffix⟩ := exists_suffix?_of_layer? hlayer
  obtain ⟨c, tail, htag⟩ := List.exists_cons_of_ne_nil gate.tag_ne_nil
  have htail : gate.tag ++ layer.whole = c :: (tail ++ piece ++ behind) := by
    rw [htag, hbehind, List.cons_append, List.append_assoc]
  obtain ⟨front, hfront⟩ := gate.exists_suffixes_append skipped (gate.tag ++ layer.whole)
  obtain ⟨between, hbetween⟩ := gate.exists_suffixes_append (tail ++ piece) behind
  rw [hfront, htail, suffixes, ← htail, hsuffix, hbetween]
  simp only [List.length_append, Option.toList_some, List.length_singleton]
  omega

/-- Each tag is an occurrence of the tag's fixed part. -/
theorem length_suffixes_le_occurrences (gate : LayerGate) (t : Text) :
    (gate.suffixes t).length ≤ Text.occurrences gate.tag t := by
  induction t with
  | nil => simp [suffixes]
  | cons c rest ih =>
      rw [suffixes, Text.occurrences, List.length_append]
      cases hsuffix : gate.suffix? (c :: rest) with
      | none => simpa using Nat.le_add_left_of_le ih
      | some suffix =>
          obtain ⟨after, hstrip, -⟩ := Option.bind_eq_some_iff.1 hsuffix
          have htag : gate.tag <+: c :: rest := ⟨after, (Text.strip?_eq_some_iff.1 hstrip).symm⟩
          rw [if_pos htag]
          exact Nat.add_le_add_left ih 1

/-! ### A whole run -/

variable (gate)

/-- A cursor between what is done with of a text and what is left of it. What has been written and counted, with what
    a pass over the rest writes and counts, makes up the whole pass, and no more has been counted or passed than there
    are tags that are not left. -/
structure Between (t above rest : Text) (cursor : Cursor) : Prop where
  whole : t = above ++ rest
  position : cursor.position = above.byteLength
  result : ((gate.recognizer selection).script t).result
    = cursor.written ++ ((gate.recognizer selection).script rest).result
  swaps : ((gate.recognizer selection).script t).swaps
    = cursor.counted + ((gate.recognizer selection).script rest).swaps
  tags : cursor.counted + cursor.passed + (gate.suffixes rest).length ≤ (gate.suffixes t).length

theorem between_start (t : Text) : gate.Between selection t [] t .start :=
  ⟨rfl, rfl, rfl, by simp [Cursor.start], by simp [Cursor.start]⟩

/-- What an iteration comes to that is not the last one: the position has grown, and one more layer has been counted or
    passed. -/
def Advances (t : Text) (cursor next : Cursor) : Prop :=
  (∃ above rest, gate.Between selection t above rest next) ∧ cursor.position < next.position
    ∧ next.counted + next.passed = cursor.counted + cursor.passed + 1

variable {gate selection} {t : Text}

theorem Between.position_le (h : gate.Between selection t above rest cursor) : cursor.position ≤ t.byteLength := by
  rw [h.position, h.whole, Text.byteLength_append]
  exact Nat.le_add_right _ _

/-- Reading a piece with a tag in it leads closer to the end. -/
theorem Between.advances (h : gate.Between selection t above rest cursor) {read wrote behind : Text} {next : Cursor}
    (hrest : rest = read ++ behind) (hposition : next.position = (above ++ read).byteLength)
    (hwritten : next.written = cursor.written ++ wrote)
    (hresult : ((gate.recognizer selection).script rest).result
      = wrote ++ ((gate.recognizer selection).script behind).result)
    (hswaps : cursor.counted + ((gate.recognizer selection).script rest).swaps
      = next.counted + ((gate.recognizer selection).script behind).swaps)
    (hcount : next.counted + next.passed = cursor.counted + cursor.passed + 1)
    (htags : (gate.suffixes behind).length < (gate.suffixes rest).length) :
    gate.Advances selection t cursor next := by
  have hread : 0 < read.byteLength := by
    cases read with
    | nil =>
        rw [hrest, List.nil_append] at htags
        exact absurd htags (Nat.lt_irrefl _)
    | cons c read => exact Nat.add_pos_left c.utf8Size_pos _
  refine ⟨⟨above ++ read, behind, ?_, hposition, ?_, ?_, ?_⟩, ?_, hcount⟩
  · rw [h.whole, hrest, List.append_assoc]
  · rw [h.result, hresult, hwritten, List.append_assoc]
  · rw [h.swaps, hswaps]
  · have hleft := h.tags
    omega
  · rw [hposition, h.position, Text.byteLength_append]
    omega

theorem Between.again_of_accessory (h : gate.Between selection t above rest cursor)
    (hsearch : gate.search? above.getLast? rest = some (skipped, layer))
    (haccessory : (gate.kind = .avatar && isAccessory layer.suffix) = true) :
    ∃ next, gate.iterate? selection t cursor = some (.again next) ∧ gate.Advances selection t cursor next := by
  obtain ⟨hrest, hlayer⟩ := gate.of_search? hsearch
  have hagain := iterate?_accessory selection h.position hsearch haccessory
  rw [← h.whole] at hagain
  have hread : rest = skipped ++ (gate.tag ++ layer.suffix) ++ layer.registered.whole := by
    simp [hrest, TaggedLayer.whole]
  have hscript := gate.script_search? selection above.getLast? rest
  simp only [hsearch, script_of_accessory selection hlayer haccessory] at hscript
  have htags := length_suffixes_lt hlayer (rfl : _ = layer.suffix ++ _) skipped
  rw [← hrest] at htags
  refine ⟨_, hagain, h.advances hread rfl rfl ?_ ?_ ?_ htags⟩
  · simp [hscript, Edit.result]
  · simp [hscript]
  · simp only [Nat.add_assoc]

theorem Between.again_of_guarded (h : gate.Between selection t above rest cursor)
    (hsearch : gate.search? above.getLast? rest = some (skipped, layer))
    (hguarded : (gate.kind = .avatar && isAccessory layer.suffix) = false) :
    ∃ next, gate.iterate? selection t cursor = some (.again next) ∧ gate.Advances selection t cursor next := by
  obtain ⟨hrest, hlayer⟩ := gate.of_search? hsearch
  have hagain := iterate?_guarded selection h.position hsearch hguarded
  rw [← h.whole] at hagain
  have hwhole : layer.whole
      = layer.suffix ++ layer.registered.gap ++ layer.registered.line ++ layer.registered.rest := by
    simp [TaggedLayer.whole, Registration.whole]
  have hread : rest = skipped ++ (gate.tag ++ layer.suffix ++ layer.registered.gap) ++ layer.registered.line
      ++ layer.registered.rest := by
    simp [hrest, hwhole]
  have hscript := gate.script_search? selection above.getLast? rest
  simp only [hsearch, script_of_guarded selection hlayer hguarded] at hscript
  have hresult : ((gate.recognizer selection).script rest).result
      = skipped ++ (gate.tag ++ layer.suffix ++ layer.registered.gap) ++ gate.inserted selection layer
        ++ layer.registered.line ++ ((gate.recognizer selection).script layer.registered.rest).result := by
    simp [hscript, Edit.result]
  have htags := length_suffixes_lt hlayer hwhole skipped
  rw [← hrest] at htags
  refine ⟨_, hagain, h.advances hread ?_ ?_ hresult ?_ ?_ htags⟩
  · simp only [List.append_assoc]
  · simp only [List.append_assoc]
  · simp [hscript, Nat.add_assoc, Nat.add_comm 1]
  · simp only [Nat.add_right_comm]

/-- No iteration fails. Either the loop goes on closer to the end, or it is over and has written and counted what the
    pass writes and counts. -/
theorem iterate?_of_between (h : gate.Between selection t above rest cursor) :
    (∃ next, gate.iterate? selection t cursor = some (.again next) ∧ gate.Advances selection t cursor next)
      ∨ ∃ last, gate.iterate? selection t cursor = some (.over last)
        ∧ Rewrite.ofScript ((gate.recognizer selection).script t) = ⟨last.written, last.counted⟩
        ∧ last.counted = cursor.counted ∧ last.passed = cursor.passed := by
  cases hsearch : gate.search? above.getLast? rest with
  | none =>
      have hover := iterate?_over selection h.position hsearch
      rw [← h.whole] at hover
      have hscript := gate.script_search? selection above.getLast? rest
      rw [hsearch] at hscript
      refine .inr ⟨_, hover, ?_, rfl, rfl⟩
      rw [Rewrite.ofScript, h.result, h.swaps, hscript]
      simp
  | some found =>
      obtain ⟨skipped, layer⟩ := found
      cases haccessory : gate.kind = .avatar && isAccessory layer.suffix with
      | true => exact .inl (h.again_of_accessory hsearch haccessory)
      | false => exact .inl (h.again_of_guarded hsearch haccessory)

/-- The loop comes to an end. -/
theorem exists_runs (h : gate.Between selection t above rest cursor) :
    ∃ cursors last, gate.Runs selection t cursor cursors last
      ∧ (cursor :: cursors).IsChain (fun cursor next => cursor.position < next.position)
      ∧ (∀ next ∈ cursors, next.position ≤ t.byteLength)
      ∧ Rewrite.ofScript ((gate.recognizer selection).script t) = ⟨last.written, last.counted⟩
      ∧ last.counted + last.passed = cursor.counted + cursor.passed + cursors.length
      ∧ last.counted + last.passed ≤ (gate.suffixes t).length := by
  induction hleft : t.byteLength - cursor.position using Nat.strongRecOn generalizing above rest cursor with
  | ind left ih =>
      subst hleft
      rcases iterate?_of_between h with ⟨next, hnext, ⟨above', rest', hbetween⟩, hposition, hcount⟩
        | ⟨last, hlast, hpass, hcounted, hpassed⟩
      · have hbound := hbetween.position_le
        obtain ⟨cursors, last, hruns, hchain, hbounds, hpass, hlength, htags⟩ := ih _ (by omega) hbetween rfl
        refine ⟨next :: cursors, last, .again hnext hruns, hchain.cons_cons hposition,
          List.forall_mem_cons.2 ⟨hbound, hbounds⟩, hpass, ?_, htags⟩
        rw [hlength, hcount, List.length_cons]
        omega
      · refine ⟨[], last, .over hlast, List.IsChain.singleton _, by simp, hpass, ?_, ?_⟩
        · rw [hcounted, hpassed, List.length_nil, Nat.add_zero]
        · have hleft := h.tags
          omega

end LayerGate

end Rule

end CanvasExport
