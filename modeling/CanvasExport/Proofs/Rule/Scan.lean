/-
Module: CanvasExport.Proofs.Rule.Scan
Layer: Proofs
Purpose: A gate as a plain scanner of lines. It looks for the first tag, then for the first line below that holds the
  registration word; it puts the tag's guard in front of that line and goes on behind the line's last registration
  word, or, for an accessory, at the end of the tag's line. In texts in which each carriage return belongs to a line
  break this is the pass of the gate, and the search for matches of the gate's pattern.
Main exports: throughLast?, registrationBelow?, LayerGate.firstTag?, LayerGate.scan, LayerGate.scan_line,
  LayerGate.loop_eq_scan
-/
import CanvasExport.Proofs.Rule.Pattern

namespace CanvasExport.Rule

/-! ### The scanner -/

/-- The text through the last occurrence of a needle, and what follows it. -/
def throughLast? (needle : Text) : Text → Option (Text × Text)
  | [] => none
  | c :: rest =>
    ((throughLast? needle rest).map fun found => (c :: found.1, found.2)).or
      ((Text.strip? needle (c :: rest)).map fun after => (needle, after))

theorem append_of_throughLast? {needle t through after : Text} (h : throughLast? needle t = some (through, after)) :
    through ++ after = t := by
  induction t generalizing through with
  | nil => contradiction
  | cons c rest ih =>
      rw [throughLast?, Option.or_eq_some_iff] at h
      rcases h with h | ⟨-, h⟩
      · obtain ⟨found, hfound, heq⟩ := Option.map_eq_some_iff.1 h
        obtain ⟨rfl, rfl⟩ : c :: found.1 = through ∧ found.2 = after := by simpa using heq
        rw [List.cons_append, ih hfound]
      · obtain ⟨found, hfound, heq⟩ := Option.map_eq_some_iff.1 h
        obtain ⟨rfl, rfl⟩ : needle = through ∧ found = after := by simpa using heq
        exact (Text.strip?_eq_some_iff.1 hfound).symm

/-- The first line behind a line feed that holds the registration word: what stands in front of that line, the line
    through its last registration word, and everything after it. -/
def registrationBelow? : Text → Option Registration
  | [] => none
  | c :: rest =>
    match if c = '\n' then throughLast? registration (rest.takeWhile (· != '\n')) else none with
    | some (line, tail) => some ⟨[c], line, tail ++ rest.dropWhile (· != '\n')⟩
    | none => (registrationBelow? rest).map (Registration.behind c)

theorem whole_of_registrationBelow? {t : Text} {registered : Registration}
    (h : registrationBelow? t = some registered) : registered.whole = t := by
  induction t generalizing registered with
  | nil => contradiction
  | cons c rest ih =>
      rw [registrationBelow?] at h
      split at h
      · rename_i line tail hline
        obtain rfl := Option.some.inj h
        split at hline
        · have hwhole := append_of_throughLast? hline
          calc [c] ++ line ++ (tail ++ rest.dropWhile (· != '\n'))
              = c :: (line ++ tail ++ rest.dropWhile (· != '\n')) := by simp
            _ = c :: rest := by rw [hwhole, List.takeWhile_append_dropWhile]
        · contradiction
      · obtain ⟨found, hfound, rfl⟩ := Option.map_eq_some_iff.1 h
        rw [Registration.whole_behind, ih hfound]

/-- A tag in a text. -/
structure FoundTag where
  /-- What stands in front of the tag. -/
  skipped : Text
  suffix : Text
  /-- The text from the tag on. -/
  here : Text

/-- What a scanner does with one tag. -/
structure ScanStep where
  /-- What is written for the text through the place at which the scanner goes on. -/
  written : Text
  counted : Nat
  /-- The text that is left to scan. -/
  rest : Text

namespace LayerGate

variable (gate : LayerGate) (selection : Text)

/-- The suffix of the tag at the head of a text: the rest of the line for an avatar; all digits, of which there has
    to be one, for hair and eyes. -/
def tagSuffix? (t : Text) : Option Text := do
  let rest ← Text.strip? gate.tag t
  match gate.kind with
  | .avatar => some (rest.takeWhile (· != '\n'))
  | .hair | .eyes => if (rest.takeWhile Char.isDigit).isEmpty then none else some (rest.takeWhile Char.isDigit)

/-- The first tag in a text. -/
def firstTag? : Text → Option FoundTag
  | [] => none
  | c :: rest =>
    match gate.tagSuffix? (c :: rest) with
    | some suffix => some ⟨[], suffix, c :: rest⟩
    | none => (firstTag? rest).map fun found => { found with skipped := c :: found.skipped }

theorem of_firstTag? {t : Text} {found : FoundTag} (h : gate.firstTag? t = some found) :
    t = found.skipped ++ found.here ∧ gate.tagSuffix? found.here = some found.suffix := by
  induction t generalizing found with
  | nil => contradiction
  | cons c rest ih =>
      rw [firstTag?] at h
      split at h
      · rename_i suffix hsuffix
        obtain rfl := Option.some.inj h
        exact ⟨rfl, hsuffix⟩
      · obtain ⟨later, hlater, rfl⟩ := Option.map_eq_some_iff.1 h
        obtain ⟨hwhole, hsuffix⟩ := ih hlater
        exact ⟨by rw [hwhole, List.cons_append], hsuffix⟩

/-- The step for the first tag in a text, if there is one and a line to guard for it. -/
def scanStep? (t : Text) : Option ScanStep := do
  let found ← gate.firstTag? t
  let line := found.here.takeWhile (· != '\n')
  let below := found.here.dropWhile (· != '\n')
  let registered ← registrationBelow? below
  if gate.kind = .avatar && isAccessory found.suffix then
    some ⟨found.skipped ++ line, 0, below⟩
  else
    let guard := gate.guard selection found.suffix
    let inserted := if guard <+: registered.line then [] else guard
    some ⟨found.skipped ++ line ++ registered.gap ++ inserted ++ registered.line, 1, registered.rest⟩

/-- Below the line of a tag there is less to scan than from the tag on. -/
theorem length_below_tag {t suffix : Text} (h : gate.tagSuffix? t = some suffix) :
    (t.dropWhile (· != '\n')).length < t.length := by
  obtain ⟨rest, hrest, -⟩ := Option.bind_eq_some_iff.1 h
  have htag : 0 < gate.tag.length := List.length_pos_iff.2 gate.tag_ne_nil
  have hshorter : (rest.dropWhile (· != '\n')).length ≤ rest.length := (List.dropWhile_suffix _).length_le
  rw [Text.strip?_eq_some_iff.1 hrest, List.dropWhile_append_of_pos (ne_lf_of_unbroken gate.unbroken_tag),
    List.length_append]
  omega

/-- Each step leaves less to scan. -/
theorem length_of_scanStep? {t : Text} {step : ScanStep} (h : gate.scanStep? selection t = some step) :
    step.rest.length < t.length := by
  obtain ⟨found, hfound, h⟩ := Option.bind_eq_some_iff.1 h
  obtain ⟨registered, hregistered, h⟩ := Option.bind_eq_some_iff.1 h
  obtain ⟨hwhole, hsuffix⟩ := gate.of_firstTag? hfound
  have hbelow := gate.length_below_tag hsuffix
  have hrest : registered.rest.length ≤ (found.here.dropWhile (· != '\n')).length := by
    rw [← whole_of_registrationBelow? hregistered, Registration.whole, List.length_append]
    omega
  rw [hwhole, List.length_append]
  split at h
  · obtain rfl := Option.some.inj h
    dsimp only
    omega
  · obtain rfl := Option.some.inj h
    dsimp only
    omega

/-- Scans a text from its start: step after step, until there is none and the rest is copied. -/
def scan (t : Text) : Rewrite :=
  match _h : gate.scanStep? selection t with
  | none => ⟨t, 0⟩
  | some step =>
    let later := scan step.rest
    ⟨step.written ++ later.text, step.counted + later.replacements⟩
termination_by t.length
decreasing_by
  · exact gate.length_of_scanStep? selection _h

/-! ### How the scanner goes on -/

theorem scan_of_none {t : Text} (h : gate.scanStep? selection t = none) : gate.scan selection t = ⟨t, 0⟩ := by
  rw [scan]
  split
  · rfl
  · simp_all

theorem scan_of_some {t : Text} {step : ScanStep} (h : gate.scanStep? selection t = some step) :
    gate.scan selection t = ⟨step.written ++ (gate.scan selection step.rest).text,
      step.counted + (gate.scan selection step.rest).replacements⟩ := by
  rw [scan]
  split
  · simp_all
  · rename_i found hfound
    obtain rfl : found = step := by simpa [h] using hfound.symm
    rfl

/-- Where no tag starts, the character is copied. -/
theorem scan_cons_of_none {c : Char} {t : Text} (h : gate.tagSuffix? (c :: t) = none) :
    gate.scan selection (c :: t) = ⟨c :: (gate.scan selection t).text, (gate.scan selection t).replacements⟩ := by
  have hfirst : gate.firstTag? (c :: t)
      = (gate.firstTag? t).map fun found => { found with skipped := c :: found.skipped } := by
    rw [firstTag?, h]
  have hstep : gate.scanStep? selection (c :: t)
      = (gate.scanStep? selection t).map fun step => { step with written := c :: step.written } := by
    rw [scanStep?, hfirst, scanStep?]
    cases gate.firstTag? t with
    | none => rfl
    | some found =>
        simp only [Option.map_some, Option.bind_eq_bind, Option.bind_some]
        cases registrationBelow? (found.here.dropWhile (· != '\n')) with
        | none => rfl
        | some registered =>
            simp only [Option.bind_some]
            split <;> simp
  cases hlater : gate.scanStep? selection t with
  | none =>
      rw [hlater, Option.map_none] at hstep
      rw [gate.scan_of_none selection hstep, gate.scan_of_none selection hlater]
  | some step =>
      rw [hlater, Option.map_some] at hstep
      rw [gate.scan_of_some selection hstep, gate.scan_of_some selection hlater]
      rfl

/-- The step for a tag at the head of a text. -/
theorem scanStep?_of_tag {t suffix : Text} (h : gate.tagSuffix? t = some suffix) :
    gate.scanStep? selection t = (registrationBelow? (t.dropWhile (· != '\n'))).map fun registered =>
      if gate.kind = .avatar && isAccessory suffix then
        ⟨t.takeWhile (· != '\n'), 0, t.dropWhile (· != '\n')⟩
      else
        ⟨t.takeWhile (· != '\n') ++ registered.gap
          ++ (if gate.guard selection suffix <+: registered.line then [] else gate.guard selection suffix)
          ++ registered.line, 1, registered.rest⟩ := by
  have hfirst : gate.firstTag? t = some ⟨[], suffix, t⟩ := by
    cases t with
    | nil =>
        have hshorter := gate.length_below_tag h
        simp at hshorter
    | cons c rest => rw [firstTag?, h]
  rw [scanStep?, hfirst]
  simp only [Option.bind_eq_bind, Option.bind_some, List.nil_append]
  cases registrationBelow? (t.dropWhile (· != '\n')) with
  | none => rfl
  | some registered =>
      simp only [Option.bind_some, Option.map_some]
      split <;> rfl

end LayerGate

/-! ### The scanner over lines -/

/-- Where no line feed stands, the last registration word is the last one of the line. -/
theorem throughLast?_registration {t : Text} (h : '\n' ∉ t) :
    throughLast? registration t = throughRegistration? t := by
  induction t with
  | nil => rfl
  | cons c rest ih =>
      simp only [List.mem_cons, not_or] at h
      rw [throughLast?, ih h.2, throughRegistration?_cons (Ne.symm h.1)]

/-- A line as the scanner cuts it off holds a carriage return more than its content, if it has one. -/
theorem exists_line (content : Text) (hcontent : Unbroken content) (below : List (LineEnding × Text)) :
    ∃ cr, (cr = [] ∨ cr = ['\r']) ∧ (content ++ Lines.belowText below).takeWhile (· != '\n') = content ++ cr
      ∧ cr ++ (content ++ Lines.belowText below).dropWhile (· != '\n') = Lines.belowText below := by
  cases below with
  | nil =>
      have hall := LayerGate.ne_lf_of_unbroken hcontent
      refine ⟨[], .inl rfl, ?_, ?_⟩
      · rw [List.takeWhile_append_of_pos hall]
        rfl
      · rw [List.dropWhile_append_of_pos hall]
        rfl
  | cons line below =>
      obtain ⟨lead, next⟩ := line
      obtain ⟨cr, hcr, hlead, htake, hdrop⟩ := LayerGate.takeWhile_lf_line hcontent lead next below
      exact ⟨cr, hcr, htake, by rw [hdrop, Lines.belowText_cons, Lines.belowText_cons, hlead]; simp [LineEnding.text]⟩

/-- Where no line feed stands, everything leads up to the first registration line below. -/
theorem registrationBelow?_append {above : Text} (h : '\n' ∉ above) (t : Text) :
    registrationBelow? (above ++ t)
      = (registrationBelow? t).map fun registered => { registered with gap := above ++ registered.gap } := by
  induction above with
  | nil => simp
  | cons c above ih =>
      simp only [List.mem_cons, not_or] at h
      rw [List.cons_append, registrationBelow?, if_neg (Ne.symm h.1), ih h.2, Option.map_map]
      rfl

/-- If there is none below a text, there is none below a later place. -/
theorem registrationBelow?_of_append {above t : Text} (h : registrationBelow? (above ++ t) = none) :
    registrationBelow? t = none := by
  induction above with
  | nil => exact h
  | cons c above ih =>
      rw [List.cons_append, registrationBelow?] at h
      split at h
      · contradiction
      · exact ih (Option.map_eq_none_iff.1 h)

theorem lf_not_mem {content : Text} (h : Unbroken content) : '\n' ∉ content :=
  fun hmem => absurd (h '\n' hmem) (by decide)

/-- At a line break the line behind it is the first one, or what stands there leads up to the first one. -/
theorem registrationBelow?_ending (lead : LineEnding) {content : Text} (hcontent : Unbroken content)
    (below : List (LineEnding × Text)) :
    registrationBelow? (lead.text ++ (content ++ Lines.belowText below))
      = match throughRegistration? content with
        | some found => some ⟨lead.text, found.1, found.2 ++ Lines.belowText below⟩
        | none => (registrationBelow? (Lines.belowText below)).map fun registered =>
          { registered with gap := lead.text ++ (content ++ registered.gap) } := by
  obtain ⟨cr, hcr, htake, hdrop⟩ := exists_line content hcontent below
  have hline : throughLast? registration (content ++ cr)
      = (throughRegistration? content).map fun found => (found.1, found.2 ++ cr) := by
    have hfree := lf_not_mem hcontent
    rcases hcr with rfl | rfl
    · rw [List.append_nil, throughLast?_registration hfree]
      simp
    · have hnone : throughRegistration? [] = none := rfl
      rw [throughLast?_registration (by simpa using hfree),
        throughRegistration?_append_cons hcontent (by decide) (by decide), hnone]
      rfl
  have hlf : registrationBelow? ('\n' :: (content ++ Lines.belowText below))
      = match throughRegistration? content with
        | some found => some ⟨['\n'], found.1, found.2 ++ Lines.belowText below⟩
        | none => (registrationBelow? (Lines.belowText below)).map fun registered =>
          { registered with gap := '\n' :: (content ++ registered.gap) } := by
    rw [registrationBelow?, if_pos rfl, htake, hline, registrationBelow?_append (lf_not_mem hcontent)]
    cases throughRegistration? content with
    | some found => simp [hdrop]
    | none =>
        rw [Option.map_none, Option.map_map]
        rfl
  cases lead with
  | lf => exact hlf
  | crlf =>
      have hbehind : registrationBelow? ('\r' :: '\n' :: (content ++ Lines.belowText below))
          = (registrationBelow? ('\n' :: (content ++ Lines.belowText below))).map (Registration.behind '\r') := by
        rw [registrationBelow?, if_neg (by decide)]
      refine hbehind.trans ?_
      rw [hlf]
      cases throughRegistration? content with
      | some found => rfl
      | none =>
          rw [Option.map_map]
          rfl

theorem registrationBelow?_of_silent {below : List (LineEnding × Text)} (h : Silent below)
    (hbelow : Lines.UnbrokenBelow below) : registrationBelow? (Lines.belowText below) = none := by
  induction below with
  | nil => rfl
  | cons line below ih =>
      obtain ⟨lead, content⟩ := line
      simp only [Silent, List.forall_mem_cons] at h
      rw [Lines.unbrokenBelow_cons] at hbelow
      rw [Lines.belowText_cons, registrationBelow?_ending lead hbelow.1, h.1, ih h.2 hbelow.2]
      rfl

theorem registrationBelow?_of_registered {above rest : List (LineEnding × Text)} {lead : LineEnding}
    {content line tail : Text} (habove : Silent above) (hthrough : throughRegistration? content = some (line, tail))
    (hbelow : Lines.UnbrokenBelow (above ++ (lead, content) :: rest)) :
    registrationBelow? (Lines.belowText (above ++ (lead, content) :: rest))
      = some ⟨Lines.belowText above ++ lead.text, line, tail ++ Lines.belowText rest⟩ := by
  induction above with
  | nil =>
      rw [List.nil_append, Lines.unbrokenBelow_cons] at hbelow
      rw [List.nil_append, Lines.belowText_cons, registrationBelow?_ending lead hbelow.1, hthrough]
      rfl
  | cons head above ih =>
      obtain ⟨lead', content'⟩ := head
      simp only [Silent, List.forall_mem_cons] at habove
      rw [List.cons_append, Lines.unbrokenBelow_cons] at hbelow
      rw [List.cons_append, Lines.belowText_cons, registrationBelow?_ending lead' hbelow.1, habove.1,
        ih habove.2 hbelow.2]
      simp

theorem exists_registrationBelow? {below : List (LineEnding × Text)} (h : ¬ Silent below)
    (hbelow : Lines.UnbrokenBelow below) :
    ∃ registered, registrationBelow? (Lines.belowText below) = some registered := by
  obtain ⟨above, lead, content, rest, line, tail, rfl, habove, hthrough⟩ := (silent_or_registered below).resolve_left h
  exact ⟨_, registrationBelow?_of_registered habove hthrough hbelow⟩

namespace LayerGate

variable (gate : LayerGate) (selection : Text)

theorem tagSuffix?_break {c : Char} (h : endsLine (some c) = true) (t : Text) : gate.tagSuffix? (c :: t) = none := by
  rw [tagSuffix?, gate.strip?_tag_break h]
  rfl

theorem scan_ending (ending : LineEnding) (t : Text) :
    gate.scan selection (ending.text ++ t)
      = ⟨ending.text ++ (gate.scan selection t).text, (gate.scan selection t).replacements⟩ := by
  have hlf := gate.scan_cons_of_none selection (gate.tagSuffix?_break (c := '\n') rfl t)
  cases ending with
  | lf => exact hlf
  | crlf =>
      have hcr := gate.scan_cons_of_none selection (gate.tagSuffix?_break (c := '\r') rfl ('\n' :: t))
      exact hcr.trans (by rw [hlf]; rfl)

theorem tagSuffix?_of_suffix?_eq_none {content : Text} (h : gate.suffix? content = none)
    (below : List (LineEnding × Text)) : gate.tagSuffix? (content ++ Lines.belowText below) = none := by
  rw [tagSuffix?, strip?_tag_line]
  rw [suffix?] at h
  cases hstrip : Text.strip? gate.tag content with
  | none => rfl
  | some rest =>
      rw [hstrip] at h
      cases hkind : gate.kind with
      | avatar => simp [hkind] at h
      | hair | eyes =>
          have hempty : (rest.takeWhile Char.isDigit).isEmpty = true := by simpa [hkind] using h
          simp only [Option.map_some, Option.bind_eq_bind, Option.bind_some, (takeWhile_isDigit_line rest below).1,
            if_pos hempty]

/-- A suffix that is cut off with a carriage return asks for the same guard. -/
theorem exists_tagSuffix? {content suffix : Text} (hcontent : Unbroken content)
    (h : gate.suffix? content = some suffix) (below : List (LineEnding × Text)) :
    ∃ found, gate.tagSuffix? (content ++ Lines.belowText below) = some found
      ∧ (gate.kind = .avatar && isAccessory found) = (gate.kind = .avatar && isAccessory suffix)
      ∧ gate.guard selection found = gate.guard selection suffix := by
  rw [suffix?] at h
  rw [tagSuffix?, strip?_tag_line]
  cases hstrip : Text.strip? gate.tag content with
  | none => simp [hstrip] at h
  | some rest =>
      obtain rfl := Text.strip?_eq_some_iff.1 hstrip
      rw [hstrip] at h
      cases hkind : gate.kind with
      | avatar =>
          obtain rfl : rest = suffix := by simpa [hkind] using h
          obtain ⟨cr, hcr, htake, -⟩ := exists_line rest (unbroken_append.1 hcontent).2 below
          have hsame : isAccessory (rest ++ cr) = isAccessory rest := by
            rcases hcr with rfl | rfl
            · rw [List.append_nil]
            · exact isAccessory_append_cr rest
          exact ⟨rest ++ cr, by simp [htake], by rw [hsame], by simp [guard, condition, hkind]⟩
      | hair | eyes =>
          refine ⟨suffix, ?_, rfl, rfl⟩
          simp only [Option.map_some, Option.bind_eq_bind, Option.bind_some, (takeWhile_isDigit_line rest below).1]
          simpa only [hkind, Option.bind_eq_bind, Option.bind_some] using h

/-- From a tag that asks for a guard the scanner goes through its registration line. -/
theorem scan_of_guard {content suffix : Text} (hcontent : Unbroken content)
    (hsuffix : gate.suffix? content = some suffix) (hguard : (gate.kind = .avatar && isAccessory suffix) = false)
    {above rest : List (LineEnding × Text)} {lead : LineEnding} {next line tail : Text} (habove : Silent above)
    (hthrough : throughRegistration? next = some (line, tail))
    (hbelow : Lines.UnbrokenBelow (above ++ (lead, next) :: rest)) :
    gate.scan selection (content ++ Lines.belowText (above ++ (lead, next) :: rest))
      = ⟨content ++ (Lines.belowText above ++ lead.text) ++ (if (gate.guard selection suffix).isPrefixOf line then []
          else gate.guard selection suffix) ++ line ++ (gate.scan selection (tail ++ Lines.belowText rest)).text,
        1 + (gate.scan selection (tail ++ Lines.belowText rest)).replacements⟩ := by
  obtain ⟨found, hfound, haccessory, hsame⟩ := gate.exists_tagSuffix? selection hcontent hsuffix
    (above ++ (lead, next) :: rest)
  obtain ⟨cr, hcr, htake, hdrop⟩ := exists_line content hcontent (above ++ (lead, next) :: rest)
  have hlf : '\n' ∉ cr := by rcases hcr with rfl | rfl <;> decide
  have hregistered := registrationBelow?_of_registered habove hthrough hbelow
  rw [← hdrop, registrationBelow?_append hlf] at hregistered
  obtain ⟨registered, hregistered, heq⟩ := Option.map_eq_some_iff.1 hregistered
  obtain ⟨gap, line', rest'⟩ := registered
  simp only [Registration.mk.injEq] at heq
  obtain ⟨hgap, rfl, rfl⟩ := heq
  have hstep := gate.scanStep?_of_tag selection hfound
  rw [hregistered, haccessory, hguard, htake, Option.map_some, hsame] at hstep
  rw [gate.scan_of_some selection hstep, ← hgap]
  simp [List.isPrefixOf_iff_prefix]

/-- From an accessory's tag it goes to the end of the tag's line. -/
theorem scan_of_accessory {content suffix : Text} (hcontent : Unbroken content)
    (hsuffix : gate.suffix? content = some suffix) (hguard : (gate.kind = .avatar && isAccessory suffix) = true)
    {lead : LineEnding} {next : Text} {below : List (LineEnding × Text)}
    (hregistered : ¬ Silent ((lead, next) :: below)) (hbelow : Lines.UnbrokenBelow ((lead, next) :: below)) :
    gate.scan selection (content ++ Lines.belowText ((lead, next) :: below))
      = ⟨content ++ lead.text ++ (gate.scan selection (next ++ Lines.belowText below)).text,
        (gate.scan selection (next ++ Lines.belowText below)).replacements⟩ := by
  obtain ⟨found, hfound, haccessory, -⟩ := gate.exists_tagSuffix? selection hcontent hsuffix ((lead, next) :: below)
  obtain ⟨cr, -, hlead, htake, hdrop⟩ := takeWhile_lf_line hcontent lead next below
  -- Behind the tag's line stands a line feed, whatever the break was.
  have hregistered' : ¬ Silent ((LineEnding.lf, next) :: below) := by simpa [Silent] using hregistered
  have hbelow' : Lines.UnbrokenBelow ((.lf, next) :: below) := by simpa using hbelow
  obtain ⟨_, hsome⟩ := exists_registrationBelow? hregistered' hbelow'
  have hstep := gate.scanStep?_of_tag selection hfound
  rw [hdrop, htake, hsome, haccessory, hguard, Option.map_some] at hstep
  rw [gate.scan_of_some selection hstep]
  simp only [if_true, Lines.belowText_cons, scan_ending, hlead]
  simp [LineEnding.text]

/-- Without a registration line below everything is copied. -/
theorem scan_of_silent {content : Text} (hcontent : Unbroken content) {below : List (LineEnding × Text)}
    (h : Silent below) (hbelow : Lines.UnbrokenBelow below) :
    gate.scan selection (content ++ Lines.belowText below) = ⟨content ++ Lines.belowText below, 0⟩ := by
  apply gate.scan_of_none
  have hnone : registrationBelow? (content ++ Lines.belowText below) = none := by
    rw [registrationBelow?_append (lf_not_mem hcontent), registrationBelow?_of_silent h hbelow, Option.map_none]
  rw [scanStep?]
  cases hfirst : gate.firstTag? (content ++ Lines.belowText below) with
  | none => rfl
  | some found =>
      rw [(gate.of_firstTag? hfirst).1] at hnone
      have hhere := registrationBelow?_of_append hnone
      rw [← List.takeWhile_append_dropWhile (p := (· != '\n')) (l := found.here)] at hhere
      simp [registrationBelow?_of_append hhere]

/-- The scanner writes what a pass of the gate writes for the lines, and counts the same. -/
theorem scan_line {content : Text} (hcontent : Unbroken content) {below : List (LineEnding × Text)}
    (hbelow : Lines.UnbrokenBelow below) :
    gate.scan selection (content ++ Lines.belowText below)
      = ⟨content ++ Script.result (gate.lineScript selection (gate.guardFor? selection content) below),
        Script.swaps (gate.lineScript selection (gate.guardFor? selection content) below)⟩ := by
  refine gate.pass_induction
    (motive := fun content below => gate.scan selection (content ++ Lines.belowText below)
      = ⟨content ++ Script.result (gate.lineScript selection (gate.guardFor? selection content) below),
        Script.swaps (gate.lineScript selection (gate.guardFor? selection content) below)⟩)
    ?nil ?ending ?silent ?untagged ?guarded ?accessory hcontent hbelow
  case nil => exact gate.scan_of_none selection rfl
  case ending =>
    intro lead next below ih
    rw [List.nil_append, Lines.belowText_cons, scan_ending, ih]
    simp [lineScript, insertion?, guardFor?, firstSuffix?, LayerGate.next]
  case silent =>
    intro c content below hcontent hbelow hsilent _
    rw [gate.scan_of_silent selection hcontent hsilent hbelow, gate.lineScript_of_silent selection hsilent,
      Script.result_keeps, Script.swaps_keeps]
  case untagged =>
    intro c content below hsuffix ih
    have hnone := gate.tagSuffix?_of_suffix?_eq_none hsuffix below
    rw [List.cons_append] at hnone ⊢
    rw [gate.scan_cons_of_none selection hnone, ih, gate.guardFor?_cons_of_none selection hsuffix]
    rfl
  case guarded =>
    intro c content suffix above lead next line tail rest hcontent hsuffix hguard habove hthrough hbelow ih
    rw [gate.scan_of_guard selection hcontent hsuffix hguard habove hthrough hbelow, ih,
      gate.guardFor?_cons_of_guard selection hsuffix hguard, gate.lineScript_of_registered selection habove hthrough]
    simp [← append_of_throughRegistration? hthrough, Edit.result, Nat.add_comm]
  case accessory =>
    intro c content suffix lead next below hcontent hsuffix hguard hregistered hbelow ih
    rw [gate.scan_of_accessory selection hcontent hsuffix hguard hregistered hbelow, ih,
      gate.guardFor?_cons_of_accessory selection hsuffix hguard]
    simp [lineScript, insertion?, LayerGate.next]

/-- In a text in which every carriage return belongs to a line break, the search for matches of the gate's pattern,
    the gate's pass and the scanner write the same and count the same. -/
theorem loop_eq_scan {t : Text} (ht : Tidy t = true) :
    gate.loop selection none t = gate.scan selection t
      ∧ Rewrite.ofScript ((gate.recognizer selection).script t) = gate.scan selection t := by
  have hlines := Lines.unbroken_iff.1 (Lines.unbroken_ofText ht)
  have hpass : Rewrite.ofScript ((gate.recognizer selection).script t) = gate.scan selection t := by
    have hspread := gate.spread_script_text selection hlines.1 hlines.2
    have hscan := gate.scan_line selection hlines.1 hlines.2
    have htext : (Lines.ofText t).top ++ Lines.belowText (Lines.ofText t).below = t := Lines.text_ofText t
    rw [htext] at hspread hscan
    rw [hscan, Rewrite.ofScript, ← Script.result_spread, ← Script.swaps_spread, hspread]
    simp
  exact ⟨(gate.loop_eq_script selection none t).trans hpass, hpass⟩

/-- An accessory in front of its figure. -/
def dressedFigure : Text :=
  "// figure0avatarHat accessory\r\n// figure0avatar\r\na.addTween(x);".toList

/-- The accessory is passed, and the line is guarded for the figure. -/
theorem loop_eq_scan_dressedFigure :
    let gate : LayerGate := ⟨0, .avatar⟩
    let selection := "this.assetPalette".toList
    let scanned := gate.scan selection dressedFigure
    Tidy dressedFigure = true ∧ gate.loop selection none dressedFigure = scanned
      ∧ Rewrite.ofScript ((gate.recognizer selection).script dressedFigure) = scanned
      ∧ scanned.text
        = "// figure0avatarHat accessory\r\n// figure0avatar\r\nif (this.assetPalette.figure == 0)a.addTween(x);".toList
      ∧ scanned.replacements = 1 := by
  intro gate selection scanned
  have htidy : Tidy dressedFigure = true := by decide +kernel
  obtain ⟨hloop, hpass⟩ := gate.loop_eq_scan selection htidy
  refine ⟨htidy, hloop, hpass, ?_, ?_⟩
  · rw [show scanned = _ from hpass.symm]
    decide +kernel
  · rw [show scanned = _ from hpass.symm]
    decide +kernel

end LayerGate

end CanvasExport.Rule
