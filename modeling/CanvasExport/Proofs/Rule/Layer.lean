/-
Module: CanvasExport.Proofs.Rule.Layer
Layer: Proofs
Purpose: A gate line by line. From top to bottom a gate waits, after a tag, for the next registration line and
  puts the tag's guard in front of it; then it looks for tags in what is left of that line. One pass needs to
  remember no more than the guard that it waits with.
Main exports: LayerGate.guardFor?, LayerGate.next, insertion?, LayerGate.guardedLines, LayerGate.guardCount,
  LayerGate.lineScript, LayerGate.pass_induction, spread_script_text, script_lines
-/
import CanvasExport.Proofs.Rule.Registration
import CanvasExport.Proofs.Text.Alphabet

namespace CanvasExport.Rule

namespace LayerGate

variable (gate : LayerGate) (selection : Text)

/-- The suffix of the gate's tag at the head of what is left of a line. -/
def suffix? (t : Text) : Option Text := do
  let rest ← Text.strip? gate.tag t
  match gate.kind with
  | .avatar => some rest
  | .hair | .eyes => if (rest.takeWhile Char.isDigit).isEmpty then none else some (rest.takeWhile Char.isDigit)

/-- The suffix of the gate's first tag in what is left of a line. -/
def firstSuffix? : Text → Option Text
  | [] => none
  | c :: rest => (gate.suffix? (c :: rest)).or (firstSuffix? rest)

/-- The guard that the tags in the rest of a line ask for: that of the first one, unless it names an
    accessory. -/
def guardFor? (t : Text) : Option Text := do
  let suffix ← gate.firstSuffix? t
  if gate.kind = .avatar && isAccessory suffix then none else some (gate.guard selection suffix)

end LayerGate

/-- What is put in front of a line when a gate waits with a guard, if it is a registration line. -/
def insertion? (waiting : Option Text) (content : Text) : Option Text := do
  let guard ← waiting
  let (line, _) ← throughRegistration? content
  if guard.isPrefixOf line then some [] else some guard

namespace LayerGate

variable (gate : LayerGate) (selection : Text)

/-- What the gate waits with behind a line. -/
def next (waiting : Option Text) (content : Text) : Option Text :=
  match waiting with
  | none => gate.guardFor? selection content
  | some guard =>
    match throughRegistration? content with
    | some (_, rest) => gate.guardFor? selection rest
    | none => some guard

/-- The contents of lines after a pass of the gate. -/
def guardedLines : Option Text → List Text → List Text
  | _, [] => []
  | waiting, content :: rest =>
    ((insertion? waiting content).getD [] ++ content) :: guardedLines (gate.next selection waiting content) rest

/-- The number of registration lines that a pass of the gate counts. -/
def guardCount : Option Text → List Text → Nat
  | _, [] => 0
  | waiting, content :: rest =>
    (if (insertion? waiting content).isSome then 1 else 0)
      + guardCount (gate.next selection waiting content) rest

/-- The edits of a pass over the lines below a line. -/
def lineScript : Option Text → List (LineEnding × Text) → Script
  | _, [] => []
  | waiting, (lead, content) :: rest =>
    Script.keeps lead.text ++ ((insertion? waiting content).elim [] fun inserted => [.swap [] inserted])
      ++ Script.keeps content ++ lineScript (gate.next selection waiting content) rest

/-! ### What the edits write -/

theorem length_guardedLines (waiting : Option Text) (contents : List Text) :
    (gate.guardedLines selection waiting contents).length = contents.length := by
  induction contents generalizing waiting with
  | nil => rfl
  | cons content contents ih => simp [guardedLines, ih]

theorem result_lineScript (ending : LineEnding) (waiting : Option Text) (below : List (LineEnding × Text)) :
    Script.result (gate.lineScript selection waiting below)
      = Lines.belowText (Lines.writeBelow ending below
        ((gate.guardedLines selection waiting (below.map Prod.snd)).map .single)) := by
  induction below generalizing waiting with
  | nil => rfl
  | cons line below ih =>
      obtain ⟨lead, content⟩ := line
      cases hinsertion : insertion? waiting content <;>
        simp [lineScript, guardedLines, Lines.writeBelow, Block.single, hinsertion, ih, Edit.result]

theorem swaps_lineScript (waiting : Option Text) (below : List (LineEnding × Text)) :
    Script.swaps (gate.lineScript selection waiting below)
      = gate.guardCount selection waiting (below.map Prod.snd) := by
  induction below generalizing waiting with
  | nil => rfl
  | cons line below ih =>
      obtain ⟨lead, content⟩ := line
      cases hinsertion : insertion? waiting content <;>
        simp [lineScript, guardCount, hinsertion, ih, Nat.add_comm]

/-! ### Silent lines and registration lines -/

theorem insertion?_eq_none {waiting : Option Text} {content : Text}
    (h : throughRegistration? content = none) : insertion? waiting content = none := by
  cases waiting <;> simp [insertion?, h]

theorem insertion?_of_registered (guard : Text) {content line tail : Text}
    (h : throughRegistration? content = some (line, tail)) :
    insertion? (some guard) content = some (if guard.isPrefixOf line then [] else guard) := by
  simp only [insertion?, h, Option.bind_eq_bind, Option.bind_some]
  split <;> rfl

/-- Above a registration line a waiting gate changes nothing and goes on waiting. -/
theorem lineScript_silent_append {above : List (LineEnding × Text)} (h : Silent above) (guard : Text)
    (rest : List (LineEnding × Text)) :
    gate.lineScript selection (some guard) (above ++ rest)
      = Script.keeps (Lines.belowText above) ++ gate.lineScript selection (some guard) rest := by
  induction above with
  | nil => rfl
  | cons line above ih =>
      obtain ⟨lead, content⟩ := line
      simp only [Silent, List.forall_mem_cons] at h
      simp [lineScript, insertion?_eq_none h.1, next, h.1, ih h.2]

/-- At the first registration line a waiting gate puts its guard in front, and looks for tags behind the line's last
    registration word. -/
theorem lineScript_of_registered {above : List (LineEnding × Text)} (h : Silent above) {next line tail : Text}
    (hthrough : throughRegistration? next = some (line, tail)) (guard : Text) (lead : LineEnding)
    (rest : List (LineEnding × Text)) :
    gate.lineScript selection (some guard) (above ++ (lead, next) :: rest)
      = Script.keeps (Lines.belowText above) ++ Script.keeps lead.text
        ++ .swap [] (if guard.isPrefixOf line then [] else guard)
          :: (Script.keeps next ++ gate.lineScript selection (gate.guardFor? selection tail) rest) := by
  have hwaiting : gate.next selection (some guard) next = gate.guardFor? selection tail := by
    simp [LayerGate.next, hthrough]
  rw [gate.lineScript_silent_append selection h, lineScript, insertion?_of_registered guard hthrough, hwaiting]
  simp

/-- Silent lines are kept, whatever the gate waits with. -/
theorem lineScript_of_silent {below : List (LineEnding × Text)} (h : Silent below) (waiting : Option Text) :
    gate.lineScript selection waiting below = Script.keeps (Lines.belowText below) := by
  induction below generalizing waiting with
  | nil => rfl
  | cons line below ih =>
      obtain ⟨lead, content⟩ := line
      simp only [Silent, List.forall_mem_cons] at h
      simp [lineScript, insertion?_eq_none h.1, ih h.2]

end LayerGate

/-! ### Tags -/

theorem unbroken_word (kind : LayerKind) : Unbroken kind.word := by
  cases kind <;> decide

theorem LayerGate.unbroken_tag (gate : LayerGate) : Unbroken gate.tag := by
  have hopening : Unbroken "// figure".toList := by decide
  have hnumeral : Unbroken (Text.numeral gate.figure) := (writtenIn_numeral gate.figure).unbroken rfl rfl
  exact unbroken_append.2 ⟨unbroken_append.2 ⟨hopening, hnumeral⟩, unbroken_word gate.kind⟩

/-- No accessory is named across a character that its word does not hold. -/
theorem isAccessory_append_cons {c : Char} (hc : c.toLower ∉ "accessory".toList) (above below : Text) :
    isAccessory (above ++ c :: below) = (isAccessory above || isAccessory below) := by
  rw [isAccessory, isAccessory, isAccessory, Bool.eq_iff_iff, Bool.or_eq_true, Text.occursIn_iff,
    Text.occursIn_iff, Text.occursIn_iff, List.map_append, List.map_cons, infix_append_cons_iff hc]

/-- A lone carriage return at the end names no accessory. -/
theorem isAccessory_append_cr (suffix : Text) : isAccessory (suffix ++ ['\r']) = isAccessory suffix := by
  have hnil : isAccessory [] = false := by decide
  rw [isAccessory_append_cons (by decide), hnil, Bool.or_false]

/-- The digits at the head of a line's rest are not continued below the line. -/
theorem takeWhile_isDigit_line (content : Text) (below : List (LineEnding × Text)) :
    (content ++ Lines.belowText below).takeWhile Char.isDigit = content.takeWhile Char.isDigit
      ∧ (content ++ Lines.belowText below).dropWhile Char.isDigit
        = content.dropWhile Char.isDigit ++ Lines.belowText below := by
  induction content with
  | nil =>
      rcases belowText_eq_nil_or_cons below with hnil | ⟨c, rest, hc, hcons⟩
      · simp [hnil]
      · cases hdigit : c.isDigit with
        | false => simp [hcons, hdigit]
        | true =>
            have hwritten : WrittenIn Char.isDigit [c] := by simpa using hdigit
            rw [hwritten.unbroken rfl rfl c List.mem_cons_self] at hc
            contradiction
  | cons c content ih =>
      cases hdigit : c.isDigit <;> simp [hdigit, ih]

namespace LayerGate

variable (gate : LayerGate) (selection : Text)

/-! ### Where a tagged layer is recognized -/

theorem strip?_tag_line (content : Text) (below : List (LineEnding × Text)) :
    Text.strip? gate.tag (content ++ Lines.belowText below)
      = (Text.strip? gate.tag content).map (· ++ Lines.belowText below) :=
  strip?_line gate.unbroken_tag content below

/-- No tag starts at a line break. -/
theorem strip?_tag_break {c : Char} (h : endsLine (some c) = true) (t : Text) :
    Text.strip? gate.tag (c :: t) = none := by
  cases hstrip : Text.strip? gate.tag (c :: t) with
  | none => rfl
  | some rest =>
      obtain rfl : c = '/' := (List.cons.inj (Text.strip?_eq_some_iff.1 hstrip)).1
      exact absurd h (by decide)

theorem endsLine_lastOr_tag : endsLine (some (lastOr ' ' gate.tag)) = false :=
  endsLine_lastOr (by decide) gate.unbroken_tag

theorem ne_lf_of_unbroken {content : Text} (h : Unbroken content) : ∀ c ∈ content, (c != '\n') = true := by
  intro c hc
  have hc := h c hc
  simp only [endsLine, Bool.or_eq_false_iff, beq_eq_false_iff_ne] at hc
  simpa using hc.1

/-- The line of an avatar tag is read with the carriage return of its break, if it has one; what follows is
    lines again. -/
theorem takeWhile_lf_line {content : Text} (hcontent : Unbroken content) (lead : LineEnding) (next : Text)
    (below : List (LineEnding × Text)) :
    ∃ cr, (cr = [] ∨ cr = ['\r']) ∧ lead.text = cr ++ ['\n']
      ∧ (content ++ Lines.belowText ((lead, next) :: below)).takeWhile (· != '\n') = content ++ cr
      ∧ (content ++ Lines.belowText ((lead, next) :: below)).dropWhile (· != '\n')
        = Lines.belowText ((.lf, next) :: below) := by
  have hcontent := ne_lf_of_unbroken hcontent
  refine ⟨if lead = .lf then [] else ['\r'], ?_, ?_, ?_, ?_⟩
  · cases lead <;> simp
  · cases lead <;> rfl
  · rw [List.takeWhile_append_of_pos hcontent]
    cases lead <;> simp [LineEnding.text]
  · rw [List.dropWhile_append_of_pos hcontent]
    cases lead <;> simp [LineEnding.text]

/-- Without a registration line below, a tag is no tagged layer. -/
theorem layer?_of_silent {content : Text} (hcontent : Unbroken content)
    {below : List (LineEnding × Text)} (h : Silent below) (hbelow : Lines.UnbrokenBelow below) :
    gate.layer? (content ++ Lines.belowText below) = none := by
  rw [layer?, strip?_tag_line]
  cases hstrip : Text.strip? gate.tag content with
  | none => rfl
  | some rest =>
      rw [Text.strip?_eq_some_iff] at hstrip
      rw [hstrip, unbroken_append] at hcontent
      have hbefore := gate.endsLine_lastOr_tag
      have havatar : avatarLayer? (lastOr ' ' gate.tag) (rest ++ Lines.belowText below) = none := by
        rw [avatarLayer?, lastInLine?_eq_none hbefore hcontent.2]
        cases below with
        | nil =>
            have hdrop : (rest ++ Lines.belowText []).dropWhile (· != '\n') = [] := by
              exact List.dropWhile_append_of_pos (ne_lf_of_unbroken hcontent.2)
            rw [hdrop]
            rfl
        | cons line below =>
            obtain ⟨lead, next⟩ := line
            obtain ⟨cr, -, -, htake, hdrop⟩ := takeWhile_lf_line hcontent.2 lead next below
            have hsilent : Silent ((.lf, next) :: below) := by
              simpa [Silent] using h
            have hunbroken : Lines.UnbrokenBelow ((.lf, next) :: below) := by
              simpa using hbelow
            rw [hdrop, nextRegistration?_of_silent hsilent hunbroken]
            rfl
      have hvariant : variantLayer? (lastOr ' ' gate.tag) (rest ++ Lines.belowText below) = none := by
        have hdigits : Unbroken (rest.takeWhile Char.isDigit) :=
          fun c hc => hcontent.2 c (List.takeWhile_prefix _ |>.subset hc)
        have hother : Unbroken (rest.dropWhile Char.isDigit) :=
          fun c hc => hcontent.2 c (List.dropWhile_suffix _ |>.subset hc)
        rw [variantLayer?, (takeWhile_isDigit_line rest below).1, (takeWhile_isDigit_line rest below).2,
          nextRegistration?_within (endsLine_lastOr hbefore hdigits) hother,
          nextRegistration?_of_silent h hbelow]
        simp
      cases gate.kind <;> simp [havatar, hvariant]

/-- Where no tag starts no layer is recognized. -/
theorem layer?_of_suffix?_eq_none {content : Text} (h : gate.suffix? content = none)
    (below : List (LineEnding × Text)) : gate.layer? (content ++ Lines.belowText below) = none := by
  rw [layer?, strip?_tag_line]
  rw [suffix?] at h
  cases hstrip : Text.strip? gate.tag content with
  | none => rfl
  | some rest =>
      rw [hstrip] at h
      have hdigits := (takeWhile_isDigit_line rest below).1
      cases hkind : gate.kind with
      | avatar => simp [hkind] at h
      | hair | eyes =>
          have hempty : (rest.takeWhile Char.isDigit).isEmpty = true := by simpa [hkind] using h
          simp only [Option.map_some, Option.bind_eq_bind, Option.bind_some]
          rw [variantLayer?, hdigits, if_pos hempty]

/-- The tag of a hair or eyes layer with a registration line below. -/
theorem variantLayer?_of_registered {before : Char} (hbefore : endsLine (some before) = false)
    {content : Text} (hcontent : Unbroken content) (hdigits : (content.takeWhile Char.isDigit).isEmpty = false)
    {above rest : List (LineEnding × Text)} {lead : LineEnding} {next line tail : Text}
    (habove : Silent above) (hthrough : throughRegistration? next = some (line, tail))
    (hbelow : Lines.UnbrokenBelow (above ++ (lead, next) :: rest)) :
    variantLayer? before (content ++ Lines.belowText (above ++ (lead, next) :: rest))
      = some ⟨content.takeWhile Char.isDigit, ⟨content.dropWhile Char.isDigit ++ (Lines.belowText above
        ++ lead.text), line, tail ++ Lines.belowText rest⟩⟩ := by
  have hsuffix : Unbroken (content.takeWhile Char.isDigit) :=
    fun c hc => hcontent c ((List.takeWhile_prefix _).subset hc)
  have hother : Unbroken (content.dropWhile Char.isDigit) :=
    fun c hc => hcontent c ((List.dropWhile_suffix _).subset hc)
  rw [variantLayer?, (takeWhile_isDigit_line content _).1, (takeWhile_isDigit_line content _).2,
    nextRegistration?_within (endsLine_lastOr hbefore hsuffix) hother,
    nextRegistration?_of_registered habove hthrough hbelow]
  simp [hdigits]

/-- The tag of an avatar layer with a registration line below: the suffix may take the carriage return of the
    break along, which then does not lead up to the line. -/
theorem avatarLayer?_of_registered (before : Char) {content : Text} (hcontent : Unbroken content)
    {above rest : List (LineEnding × Text)} {lead : LineEnding} {next line tail : Text}
    (habove : Silent above) (hthrough : throughRegistration? next = some (line, tail))
    (hbelow : Lines.UnbrokenBelow (above ++ (lead, next) :: rest)) :
    ∃ cr gap, (cr = [] ∨ cr = ['\r']) ∧ cr ++ gap = Lines.belowText above ++ lead.text
      ∧ (∃ lead' next' below', above ++ (lead, next) :: rest = (lead', next') :: below'
        ∧ lead'.text = cr ++ ['\n'])
      ∧ avatarLayer? before (content ++ Lines.belowText (above ++ (lead, next) :: rest))
        = some ⟨content ++ cr, ⟨gap, line, tail ++ Lines.belowText rest⟩⟩ := by
  cases above with
  | nil =>
      obtain ⟨cr, hcr, hlead, htake, hdrop⟩ := takeWhile_lf_line hcontent lead next rest
      have hunbroken : Lines.UnbrokenBelow ([] ++ (LineEnding.lf, next) :: rest) := by simpa using hbelow
      have hnext := nextRegistration?_of_registered habove hthrough hunbroken (lastOr before (content ++ cr))
      refine ⟨cr, ['\n'], hcr, by simpa using hlead.symm, ⟨lead, next, rest, rfl, hlead⟩, ?_⟩
      rw [List.nil_append] at hnext ⊢
      simp only [avatarLayer?, htake, hdrop, hnext]
      rfl
  | cons head above =>
      obtain ⟨lead', next'⟩ := head
      obtain ⟨cr, hcr, hlead, htake, hdrop⟩ :=
        takeWhile_lf_line hcontent lead' next' (above ++ (lead, next) :: rest)
      have hsilent : Silent ((.lf, next') :: above) := by simpa [Silent] using habove
      have hunbroken : Lines.UnbrokenBelow (((.lf, next') :: above) ++ (lead, next) :: rest) := by
        simpa using hbelow
      have hnext := nextRegistration?_of_registered hsilent hthrough hunbroken
        (lastOr before (content ++ cr))
      refine ⟨cr, Lines.belowText ((.lf, next') :: above) ++ lead.text, hcr, ?_,
        ⟨lead', next', above ++ (lead, next) :: rest, rfl, hlead⟩, ?_⟩
      · simp [hlead, show LineEnding.lf.text = ['\n'] from rfl]
      · rw [List.cons_append] at hnext ⊢
        simp only [avatarLayer?, htake, hdrop, hnext]

theorem suffix?_avatar (hkind : gate.kind = .avatar) {content suffix : Text} :
    gate.suffix? content = some suffix ↔ content = gate.tag ++ suffix := by
  rw [← Text.strip?_eq_some_iff, suffix?]
  cases Text.strip? gate.tag content <;> simp [hkind]

/-- A tag that asks for a guard, with its registration line: everything up to that line and the line through
    its last registration word is read, and the guard goes between the two. -/
theorem recognizer_of_guard {content suffix : Text} (hcontent : Unbroken content)
    (hsuffix : gate.suffix? content = some suffix)
    (hguard : (gate.kind = .avatar && isAccessory suffix) = false)
    {above rest : List (LineEnding × Text)} {lead : LineEnding} {next line tail : Text}
    (habove : Silent above) (hthrough : throughRegistration? next = some (line, tail))
    (hbelow : Lines.UnbrokenBelow (above ++ (lead, next) :: rest)) (before : Option Char) :
    gate.recognizer selection before (content ++ Lines.belowText (above ++ (lead, next) :: rest))
      = some [.keep (content ++ (Lines.belowText above ++ lead.text)),
          .swap [] (if (gate.guard selection suffix).isPrefixOf line then []
            else gate.guard selection suffix), .keep line] := by
  have hbefore := gate.endsLine_lastOr_tag
  rw [recognizer, layer?, strip?_tag_line]
  cases hkind : gate.kind with
  | avatar =>
      obtain rfl := (gate.suffix?_avatar hkind).1 hsuffix
      obtain ⟨cr, gap, hcr, hgap, -, hlayer⟩ := avatarLayer?_of_registered (lastOr ' ' gate.tag)
        (unbroken_append.1 hcontent).2 habove hthrough hbelow
      have haccessory : isAccessory (suffix ++ cr) = false := by
        have hplain : isAccessory suffix = false := by simpa [hkind] using hguard
        rcases hcr with rfl | rfl
        · simpa using hplain
        · rw [isAccessory_append_cr, hplain]
      rw [Text.strip?_eq_some_iff.2 rfl]
      simp only [Option.map_some, Option.bind_eq_bind, Option.bind_some, hlayer, edits, hkind, haccessory]
      simp [hgap, guard, condition, hkind]
  | hair | eyes =>
      rw [suffix?] at hsuffix
      cases hstrip : Text.strip? gate.tag content with
      | none => simp [hstrip] at hsuffix
      | some after =>
          obtain rfl := Text.strip?_eq_some_iff.1 hstrip
          simp only [hstrip, hkind, Option.bind_eq_bind, Option.bind_some] at hsuffix
          cases hdigits : (after.takeWhile Char.isDigit).isEmpty with
          | true => simp [hdigits] at hsuffix
          | false =>
              obtain rfl : after.takeWhile Char.isDigit = suffix := by simpa [hdigits] using hsuffix
              have hlayer := variantLayer?_of_registered hbefore (unbroken_append.1 hcontent).2 hdigits habove
                hthrough hbelow
              simp only [Option.map_some, Option.bind_eq_bind, Option.bind_some, hlayer, edits, hkind]
              have hwhole : after.takeWhile Char.isDigit ++ after.dropWhile Char.isDigit = after :=
                List.takeWhile_append_dropWhile
              simp [← List.append_assoc]
              rw [List.append_assoc, hwhole]

/-- An accessory with a registration line below: its line is read, and nothing happens to it. -/
theorem recognizer_of_accessory {content suffix : Text} (hcontent : Unbroken content)
    (hsuffix : gate.suffix? content = some suffix)
    (hguard : (gate.kind = .avatar && isAccessory suffix) = true)
    {above rest : List (LineEnding × Text)} {lead : LineEnding} {next line tail : Text}
    (habove : Silent above) (hthrough : throughRegistration? next = some (line, tail))
    (hbelow : Lines.UnbrokenBelow (above ++ (lead, next) :: rest)) (before : Option Char) :
    ∃ cr lead' next' below', above ++ (lead, next) :: rest = (lead', next') :: below'
      ∧ lead'.text = cr ++ ['\n']
      ∧ gate.recognizer selection before (content ++ Lines.belowText (above ++ (lead, next) :: rest))
        = some [.keep (content ++ cr)] := by
  obtain ⟨hkind, haccessory⟩ : gate.kind = .avatar ∧ isAccessory suffix = true := by simpa using hguard
  obtain rfl := (gate.suffix?_avatar hkind).1 hsuffix
  obtain ⟨cr, gap, hcr, -, ⟨lead', next', below', hsplit, hlead⟩, hlayer⟩ :=
    avatarLayer?_of_registered (lastOr ' ' gate.tag) (unbroken_append.1 hcontent).2 habove hthrough hbelow
  have haccessory : isAccessory (suffix ++ cr) = true := by
    rcases hcr with rfl | rfl
    · simpa using haccessory
    · rw [isAccessory_append_cr, haccessory]
  refine ⟨cr, lead', next', below', hsplit, hlead, ?_⟩
  rw [recognizer, layer?, strip?_tag_line, Text.strip?_eq_some_iff.2 rfl]
  simp only [Option.map_some, Option.bind_eq_bind, Option.bind_some, hkind, hlayer, edits, haccessory]
  simp

/-! ### A whole pass -/

theorem guardFor?_cons_of_none {c : Char} {content : Text} (h : gate.suffix? (c :: content) = none) :
    gate.guardFor? selection (c :: content) = gate.guardFor? selection content := by
  simp [guardFor?, firstSuffix?, h]

theorem guardFor?_cons_of_guard {c : Char} {content suffix : Text} (h : gate.suffix? (c :: content) = some suffix)
    (hguard : (gate.kind = .avatar && isAccessory suffix) = false) :
    gate.guardFor? selection (c :: content) = some (gate.guard selection suffix) := by
  simp only [guardFor?, firstSuffix?, h, Option.some_or, Option.bind_eq_bind, Option.bind_some, hguard]
  rfl

theorem guardFor?_cons_of_accessory {c : Char} {content suffix : Text} (h : gate.suffix? (c :: content) = some suffix)
    (hguard : (gate.kind = .avatar && isAccessory suffix) = true) : gate.guardFor? selection (c :: content) = none := by
  simp only [guardFor?, firstSuffix?, h, Option.some_or, Option.bind_eq_bind, Option.bind_some, hguard]
  rfl

theorem recognizer_eq_none {t : Text} (h : gate.layer? t = none) (before : Option Char) :
    gate.recognizer selection before t = none := by
  rw [recognizer, h]
  rfl

theorem recognizer_break {c : Char} (h : endsLine (some c) = true) (before : Option Char) (t : Text) :
    gate.recognizer selection before (c :: t) = none :=
  gate.recognizer_eq_none selection (by simp [layer?, gate.strip?_tag_break h]) before

theorem sweep_recognizer (before : Option Char) (t : Text) :
    sweep (gate.recognizer selection) 0 before t = (gate.recognizer selection).script t :=
  Recognizer.sweep_of_contextFree (fun _ _ => rfl) before t

/-- At a line break the pass goes on to the next line. -/
theorem script_ending (ending : LineEnding) (t : Text) :
    (gate.recognizer selection).script (ending.text ++ t)
      = Script.keeps ending.text ++ (gate.recognizer selection).script t := by
  cases ending with
  | lf =>
      have hlf := gate.recognizer_break selection (c := '\n') rfl none t
      exact (sweep_of_none hlf).trans (congrArg _ (gate.sweep_recognizer selection _ t))
  | crlf =>
      have hcr := gate.recognizer_break selection (c := '\r') rfl none ('\n' :: t)
      have hlf := gate.recognizer_break selection (c := '\n') rfl (some '\r') t
      exact (sweep_of_none hcr).trans (congrArg _ ((sweep_of_none hlf).trans
        (congrArg _ (gate.sweep_recognizer selection _ t))))

/-- Behind a tag that asks for a guard the sweep goes on within its registration line. -/
theorem spread_script_of_guard {content suffix : Text} (hcontent : Unbroken content)
    (hne : content ≠ []) (hsuffix : gate.suffix? content = some suffix)
    (hguard : (gate.kind = .avatar && isAccessory suffix) = false)
    {above rest : List (LineEnding × Text)} {lead : LineEnding} {next line tail : Text}
    (habove : Silent above) (hthrough : throughRegistration? next = some (line, tail))
    (hbelow : Lines.UnbrokenBelow (above ++ (lead, next) :: rest)) :
    Script.spread ((gate.recognizer selection).script
        (content ++ Lines.belowText (above ++ (lead, next) :: rest)))
      = Script.keeps content ++ Script.keeps (Lines.belowText above) ++ Script.keeps lead.text
        ++ .swap [] (if (gate.guard selection suffix).isPrefixOf line then []
          else gate.guard selection suffix)
        :: (Script.keeps line
          ++ Script.spread ((gate.recognizer selection).script (tail ++ Lines.belowText rest))) := by
  have hhere := gate.recognizer_of_guard selection hcontent hsuffix hguard habove hthrough hbelow none
  have hnext : next = line ++ tail := (append_of_throughRegistration? hthrough).symm
  have hwhole : content ++ Lines.belowText (above ++ (lead, next) :: rest)
      = (content ++ (Lines.belowText above ++ lead.text) ++ line) ++ (tail ++ Lines.belowText rest) := by
    simp [Lines.belowText_append, hnext]
  rw [Recognizer.script, sweep_of_some hhere (by simp [Edit.source]) (by simp [hne]) hwhole,
    gate.sweep_recognizer selection]
  simp

/-- Behind the line of an accessory the sweep goes on at the next line. -/
theorem spread_script_of_accessory {content suffix : Text} (hcontent : Unbroken content)
    (hne : content ≠ []) (hsuffix : gate.suffix? content = some suffix)
    (hguard : (gate.kind = .avatar && isAccessory suffix) = true)
    {lead : LineEnding} {next : Text} {below : List (LineEnding × Text)}
    (hregistered : ¬ Silent ((lead, next) :: below)) (hbelow : Lines.UnbrokenBelow ((lead, next) :: below)) :
    Script.spread ((gate.recognizer selection).script (content ++ Lines.belowText ((lead, next) :: below)))
      = Script.keeps content ++ Script.keeps lead.text
        ++ Script.spread ((gate.recognizer selection).script (next ++ Lines.belowText below)) := by
  obtain ⟨above, lead₀, next₀, rest, line, tail, heq, habove, hthrough⟩ :=
    (silent_or_registered _).resolve_left hregistered
  rw [heq] at hbelow ⊢
  obtain ⟨cr, lead', next', below', hsplit, hlead, hhere⟩ :=
    gate.recognizer_of_accessory selection hcontent hsuffix hguard habove hthrough hbelow none
  obtain ⟨⟨rfl, rfl⟩, rfl⟩ : (lead = lead' ∧ next = next') ∧ below = below' := by
    simpa using heq.trans hsplit
  have hwhole : content ++ Lines.belowText (above ++ (lead₀, next₀) :: rest)
      = (content ++ cr) ++ (LineEnding.lf.text ++ (next ++ Lines.belowText below)) := by
    simp [hsplit, hlead, show LineEnding.lf.text = ['\n'] from rfl]
  rw [Recognizer.script, sweep_of_some hhere (by simp [Edit.source]) (by simp [hne]) hwhole,
    gate.sweep_recognizer selection, script_ending]
  simp [hlead, show LineEnding.lf.text = ['\n'] from rfl]

/-- Induction along a pass over lines: it goes on behind the next character, on the next line, in what is left of
    the line that it guards, or below the line of an accessory. -/
theorem pass_induction {motive : Text → List (LineEnding × Text) → Prop} (nil : motive [] [])
    (ending : ∀ lead {next below}, motive next below → motive [] ((lead, next) :: below))
    (silent : ∀ {c content below}, Unbroken (c :: content) → Lines.UnbrokenBelow below → Silent below →
      motive content below → motive (c :: content) below)
    (untagged : ∀ {c content below}, gate.suffix? (c :: content) = none → motive content below →
      motive (c :: content) below)
    (guarded : ∀ {c content suffix above lead next line tail rest}, Unbroken (c :: content) →
      gate.suffix? (c :: content) = some suffix → (gate.kind = .avatar && isAccessory suffix) = false →
      Silent above → throughRegistration? next = some (line, tail) →
      Lines.UnbrokenBelow (above ++ (lead, next) :: rest) → motive tail rest →
      motive (c :: content) (above ++ (lead, next) :: rest))
    (accessory : ∀ {c content suffix lead next below}, Unbroken (c :: content) →
      gate.suffix? (c :: content) = some suffix → (gate.kind = .avatar && isAccessory suffix) = true →
      ¬ Silent ((lead, next) :: below) → Lines.UnbrokenBelow ((lead, next) :: below) → motive next below →
      motive (c :: content) ((lead, next) :: below))
    {content : Text} {below : List (LineEnding × Text)} (hcontent : Unbroken content)
    (hbelow : Lines.UnbrokenBelow below) : motive content below := by
  -- The pass may jump to any later line, so the induction is on the number of lines below.
  induction hlength : below.length using Nat.strongRecOn generalizing content below with
  | ind n ih =>
      have hbreak : ∀ lead next later, below = (lead, next) :: later → motive next later := by
        intro lead next later heq
        rw [heq, Lines.unbrokenBelow_cons] at hbelow
        exact ih later.length (by simp [← hlength, heq]) hbelow.1 hbelow.2 rfl
      induction content with
      | nil =>
          cases below with
          | nil => exact nil
          | cons line below => exact ending line.1 (hbreak _ _ _ rfl)
      | cons c content ihc =>
          have hlater := ihc (unbroken_cons.1 hcontent).2
          rcases silent_or_registered below with hsilent | ⟨above, lead, next, rest, line, tail, heq, habove, hthrough⟩
          · exact silent hcontent hbelow hsilent hlater
          · cases hsuffix : gate.suffix? (c :: content) with
            | none => exact untagged hsuffix hlater
            | some suffix =>
                cases hguard : gate.kind = .avatar && isAccessory suffix with
                | false =>
                    subst heq
                    have hnext : Unbroken (line ++ tail) :=
                      append_of_throughRegistration? hthrough ▸ hbelow (lead, next) (by simp)
                    have hrest : Lines.UnbrokenBelow rest := fun line hmem => hbelow line (by simp [hmem])
                    have hshorter : rest.length < n := by
                      simp [← hlength]
                      omega
                    exact guarded hcontent hsuffix hguard habove hthrough hbelow
                      (ih _ hshorter (unbroken_append.1 hnext).2 hrest rfl)
                | true =>
                    cases below with
                    | nil => simp at heq
                    | cons head below =>
                        have hregistered : ¬ Silent (head :: below) := fun hsilent => by
                          have hnone := hsilent (lead, next) (by simp [heq])
                          simp [hthrough] at hnone
                        exact accessory hcontent hsuffix hguard hregistered hbelow (hbreak _ _ _ rfl)

/-- The sweep of a gate over lines makes the edits of its pass. -/
theorem spread_script_text {content : Text} (hcontent : Unbroken content)
    {below : List (LineEnding × Text)} (hbelow : Lines.UnbrokenBelow below) :
    Script.spread ((gate.recognizer selection).script (content ++ Lines.belowText below))
      = Script.keeps content ++ gate.lineScript selection (gate.guardFor? selection content) below := by
  have hkept : ∀ {c content below}, gate.layer? (c :: content ++ Lines.belowText below) = none →
      Script.spread ((gate.recognizer selection).script (c :: content ++ Lines.belowText below))
        = .keep [c] :: Script.spread ((gate.recognizer selection).script (content ++ Lines.belowText below)) :=
    fun hnone => congrArg Script.spread
      (Recognizer.script_cons_of_none (fun _ _ => rfl) (gate.recognizer_eq_none selection hnone none))
  refine gate.pass_induction
    (motive := fun content below =>
      Script.spread ((gate.recognizer selection).script (content ++ Lines.belowText below))
        = Script.keeps content ++ gate.lineScript selection (gate.guardFor? selection content) below)
    rfl ?ending ?silent ?untagged ?guarded ?accessory hcontent hbelow
  case ending =>
    intro lead next below ih
    rw [List.nil_append, Lines.belowText_cons, script_ending, Script.spread_append, ih]
    simp [lineScript, insertion?, guardFor?, firstSuffix?, LayerGate.next]
  case silent =>
    intro c content below hcontent hbelow hsilent ih
    rw [hkept (gate.layer?_of_silent hcontent hsilent hbelow), ih, gate.lineScript_of_silent selection hsilent,
      gate.lineScript_of_silent selection hsilent]
    rfl
  case untagged =>
    intro c content below hsuffix ih
    rw [hkept (gate.layer?_of_suffix?_eq_none hsuffix below), ih, gate.guardFor?_cons_of_none selection hsuffix]
    rfl
  case guarded =>
    intro c content suffix above lead next line tail rest hcontent hsuffix hguard habove hthrough hbelow ih
    rw [gate.spread_script_of_guard selection hcontent (List.cons_ne_nil _ _) hsuffix hguard habove hthrough hbelow,
      ih, gate.guardFor?_cons_of_guard selection hsuffix hguard,
      gate.lineScript_of_registered selection habove hthrough]
    simp [← append_of_throughRegistration? hthrough]
  case accessory =>
    intro c content suffix lead next below hcontent hsuffix hguard hregistered hbelow ih
    rw [gate.spread_script_of_accessory selection hcontent (List.cons_ne_nil _ _) hsuffix hguard hregistered hbelow,
      ih, gate.guardFor?_cons_of_accessory selection hsuffix hguard]
    simp [lineScript, insertion?, LayerGate.next]

/-- A pass of a gate rewrites the lines of a text one by one. -/
theorem script_lines (ending : LineEnding) {ls : Lines} (h : ls.Unbroken) :
    Script.result ((gate.recognizer selection).script ls.text)
        = (ls.write ending ((gate.guardedLines selection none ls.contents).map .single)).text
      ∧ Script.swaps ((gate.recognizer selection).script ls.text)
        = gate.guardCount selection none ls.contents := by
  rw [Lines.unbroken_iff] at h
  have hspread := gate.spread_script_text selection h.1 h.2
  constructor
  · rw [← Script.result_spread, Lines.text, hspread, Script.result_append, Script.result_keeps,
      gate.result_lineScript selection ending]
    rfl
  · rw [← Script.swaps_spread, Lines.text, hspread, Script.swaps_append, Script.swaps_keeps,
      gate.swaps_lineScript]
    simp [Lines.contents, guardCount, insertion?, LayerGate.next]

end LayerGate

end CanvasExport.Rule
