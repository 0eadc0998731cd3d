/-
Module: CanvasExport.Proofs.Rule.Wiring
Layer: Proofs
Purpose: Wiring lines in a text with line breaks of any kind. The lookup rule puts a text in front of each place at
  which a wiring line starts, counts these places, and leaves as many of them as there were; what can be matched
  within a line is matched as often as before, and once more for each match in an inserted line.
Main exports: WiringLineAt, insertLookup_eq, insertLookup_places, swaps_insertLookup_again, matchCount_insertLookup
-/
import CanvasExport.Proofs.Rule.Guarding
import CanvasExport.Proofs.Text.Occurrences

namespace CanvasExport

/-! ### Line starts by their places -/

instance (t : Text) : (place : Nat) → Decidable (StartsLineAt t place)
  | 0 => inferInstanceAs (Decidable True)
  | place + 1 => inferInstanceAs (Decidable (t[place]? = some '\n' ∨ t[place]? = some '\r' ∧ t[place + 1]? ≠ some '\n'))

/-- The character in front of a place tells whether a line starts there. -/
theorem startsLineAt_iff {t : Text} {place : Nat} (hplace : place ≤ t.length) :
    StartsLineAt t place ↔ startsLine (Rule.inFront none t place) t[place]? = true := by
  refine ⟨fun h => ?_, Rule.startsLineAt_of_inFront hplace⟩
  cases place with
  | zero => rfl
  | succ place =>
      rcases h with hlf | ⟨hcr, hnext⟩
      · rw [Rule.inFront, hlf]
        rfl
      · rw [Rule.inFront, hcr]
        simpa [startsLine] using hnext

namespace Rule

/-- A line that is exactly the wiring line starts at the place. -/
def WiringLineAt (t : Text) (place : Nat) : Prop :=
  StartsLineAt t place ∧ lineContent (t.drop place) = wiringLine

instance (t : Text) (place : Nat) : Decidable (WiringLineAt t place) :=
  inferInstanceAs (Decidable (_ ∧ _))

/-! ### What is recognized -/

theorem endsLine_head_dropWhile (t : Text) :
    endsLine (t.dropWhile fun c => !endsLine (some c)).head? = true := by
  cases hrest : (t.dropWhile fun c => !endsLine (some c)) with
  | nil => rfl
  | cons c rest =>
      have hends : Ends (fun c => !endsLine (some c)) (t.dropWhile fun c => !endsLine (some c)) := ends_dropWhile t
      rw [hrest] at hends
      simpa using ends_cons.1 hends

/-- The rule acts exactly where a line starts that is the wiring line. -/
theorem insertLookup_eq (ending : LineEnding) (entry : Text) (before : Option Char) (t : Text) :
    insertLookup ending entry before t
      = if startsLine before t.head? = true ∧ lineContent t = wiringLine then
          some [.swap [] (ending.text ++ lookupGuard ++ entry ++ ending.text), .keep wiringLine]
        else none := by
  rw [insertLookup]
  by_cases hstart : startsLine before t.head? = true
  · rw [if_pos hstart]
    by_cases hline : lineContent t = wiringLine
    · have hstrip : Text.strip? wiringLine t = some (t.dropWhile fun c => !endsLine (some c)) := by
        rw [Text.strip?_eq_some_iff, ← hline, lineContent_append_dropWhile]
      rw [if_pos ⟨hstart, hline⟩, hstrip]
      simp [endsLine_head_dropWhile]
    · rw [if_neg fun h => hline h.2]
      cases hstrip : Text.strip? wiringLine t with
      | none => rfl
      | some rest =>
          have hrest : ¬ endsLine rest.head? = true := by
            intro hends
            rw [Text.strip?_eq_some_iff.1 hstrip, lineContent_append unbroken_wiringLine,
              lineContent_of_endsLine hends, List.append_nil] at hline
            exact hline rfl
          simp [hrest]
  · rw [if_neg hstart, if_neg fun h => hstart h.1]

/-! ### Where the rule inserts -/

/-- A wiring line starts at the place, in a text with a character in front of it. -/
def WiringFrom (before : Option Char) (t : Text) (place : Nat) : Prop :=
  startsLine (inFront before t place) t[place]? = true ∧ lineContent (t.drop place) = wiringLine

instance (before : Option Char) (t : Text) (place : Nat) : Decidable (WiringFrom before t place) :=
  inferInstanceAs (Decidable (_ ∧ _))

theorem wiringFrom_zero_iff {before : Option Char} {t : Text} :
    WiringFrom before t 0 ↔ startsLine before t.head? = true ∧ lineContent t = wiringLine := by
  rw [WiringFrom, ← List.head?_eq_getElem?]
  rfl

theorem wiringFrom_succ_iff {before : Option Char} {c : Char} {rest : Text} {place : Nat} :
    WiringFrom before (c :: rest) (place + 1) ↔ WiringFrom (some c) rest place := by
  cases place with
  | zero => rfl
  | succ place => rfl

/-- The text with an insertion in front of each wiring line. -/
def withEntries (inserted : Text) (before : Option Char) (t : Text) : Text :=
  (Script.inserting (fun place => if WiringFrom before t place then inserted else []) t).result

/-- The number of wiring lines. -/
def wiringLines (before : Option Char) (t : Text) : Nat :=
  (List.range t.length).countP fun place => WiringFrom before t place

theorem withEntries_cons (inserted : Text) (before : Option Char) (c : Char) (rest : Text) :
    withEntries inserted before (c :: rest)
      = (if WiringFrom before (c :: rest) 0 then inserted else []) ++ c :: withEntries inserted (some c) rest := by
  simp [withEntries, Script.inserting, Edit.result, wiringFrom_succ_iff]

theorem wiringLines_cons (before : Option Char) (c : Char) (rest : Text) :
    wiringLines before (c :: rest)
      = (if WiringFrom before (c :: rest) 0 then 1 else 0) + wiringLines (some c) rest := by
  rw [wiringLines, List.length_cons, List.range_succ_eq_map, List.countP_cons, List.countP_map, Nat.add_comm]
  simp [wiringLines, Function.comp_def, wiringFrom_succ_iff]

/-- Within a line nothing is inserted and nothing counted. -/
theorem wiring_within {before : Option Char} (hbefore : WithinLine before) {content : Text}
    (hcontent : Unbroken content) (inserted rest : Text) :
    withEntries inserted before (content ++ rest) = content ++ withEntries inserted (content.getLast?.or before) rest
      ∧ wiringLines before (content ++ rest) = wiringLines (content.getLast?.or before) rest := by
  induction content generalizing before with
  | nil => exact ⟨rfl, rfl⟩
  | cons c content ih =>
      rw [unbroken_cons] at hcontent
      obtain ⟨htext, hcount⟩ := ih ⟨c, rfl, hcontent.1⟩ hcontent.2
      have hwithin : ¬ WiringFrom before (c :: (content ++ rest)) 0 := by
        rw [wiringFrom_zero_iff, startsLine_of_withinLine hbefore]
        simp
      rw [List.cons_append, withEntries_cons, wiringLines_cons, if_neg hwithin, if_neg hwithin, htext, hcount,
        getLast?_cons_or]
      exact ⟨rfl, Nat.zero_add _⟩

/-- The wiring line is its brace and a text within the line. -/
theorem wiringLine_cons :
    ∃ wiring, wiringLine = '\x7d' :: wiring ∧ Unbroken wiring
      ∧ wiring.getLast?.or (some '\x7d') = wiringLine.getLast? :=
  ⟨wiringLine.tail, by decide, by decide, by decide⟩

theorem source_lookupEdits (inserted : Text) :
    Script.source [.swap [] inserted, .keep wiringLine] = wiringLine := by
  simp [Edit.source]

/-- The rule inserts in front of each wiring line, and counts them. -/
theorem insertLookup_places (ending : LineEnding) (entry : Text) (before : Option Char) (t : Text) :
    (sweep (insertLookup ending entry) 0 before t).result
        = withEntries (ending.text ++ lookupGuard ++ entry ++ ending.text) before t
      ∧ (sweep (insertLookup ending entry) 0 before t).swaps = wiringLines before t := by
  refine sweep_induction (insertLookup_faithful ending entry)
    (motive := fun before t s =>
      s.result = withEntries (ending.text ++ lookupGuard ++ entry ++ ending.text) before t
        ∧ s.swaps = wiringLines before t)
    (fun before => ⟨rfl, rfl⟩) (fun before c rest hnone hrest => ?kept)
    (fun before s rest _ hs hrest => ?found) before t
  case kept =>
    have hplain : ¬ WiringFrom before (c :: rest) 0 := by
      rw [wiringFrom_zero_iff]
      intro hwiring
      rw [insertLookup_eq, if_pos hwiring] at hnone
      contradiction
    rw [withEntries_cons, wiringLines_cons, if_neg hplain, if_neg hplain, ← hrest.1, ← hrest.2]
    simp [Edit.result]
  case found =>
    rw [insertLookup_eq] at hs
    split at hs
    · rename_i hwiring
      obtain rfl := Option.some.inj hs
      rw [source_lookupEdits] at hwiring hrest ⊢
      obtain ⟨wiring, hcons, hunbroken, hlast⟩ := wiringLine_cons
      have hbrace : WithinLine (some '\x7d') := ⟨'\x7d', rfl, by decide⟩
      obtain ⟨htext, hcount⟩ := wiring_within hbrace hunbroken
        (ending.text ++ lookupGuard ++ entry ++ ending.text) rest
      have hwhole : wiringLine ++ rest = '\x7d' :: (wiring ++ rest) := by rw [hcons, List.cons_append]
      rw [← wiringFrom_zero_iff, hwhole] at hwiring
      rw [hlast, ← hrest.1] at htext
      rw [hlast, ← hrest.2] at hcount
      rw [hwhole, withEntries_cons, wiringLines_cons, if_pos hwiring, if_pos hwiring, htext, hcount]
      simp [Edit.result, hcons, Nat.add_comm]
    · contradiction

theorem wiringFrom_none_iff {t : Text} {place : Nat} : WiringFrom none t place ↔ WiringLineAt t place := by
  refine and_congr_left fun hline => (startsLineAt_iff ?_).symm
  by_contra hplace
  rw [List.drop_eq_nil_of_le (by omega)] at hline
  exact wiringLine_ne_nil hline.symm

theorem result_insertLookup (ending : LineEnding) (entry t : Text) :
    ((insertLookup ending entry).script t).result
      = (Script.inserting (fun place =>
          if WiringLineAt t place then ending.text ++ lookupGuard ++ entry ++ ending.text else []) t).result := by
  have hplaces := (insertLookup_places ending entry none t).1
  rw [Recognizer.script]
  simpa only [withEntries, wiringFrom_none_iff] using hplaces

theorem swaps_insertLookup (ending : LineEnding) (entry t : Text) :
    ((insertLookup ending entry).script t).swaps
      = (List.range t.length).countP fun place => WiringLineAt t place := by
  have hcount := (insertLookup_places ending entry none t).2
  rw [Recognizer.script]
  simpa only [wiringLines, wiringFrom_none_iff] using hcount

/-! ### What is left of the lines -/

section Again

variable (ending ending' : LineEnding) {entry : Text} (entry' : Text)

/-- Within a line the rest of the line stays. -/
theorem lineContent_insertLookup (entry : Text) {before : Option Char} (hbefore : WithinLine before) (t : Text) :
    lineContent (sweep (insertLookup ending entry) 0 before t).result = lineContent t := by
  induction t generalizing before with
  | nil => rfl
  | cons c rest ih =>
      have hnone : insertLookup ending entry before (c :: rest) = none :=
        (insertLookup_atLineStart ending entry).atStart _ _ (startsLine_of_withinLine hbefore _)
      rw [sweep_of_none hnone, Script.result_cons, Edit.result, List.singleton_append, lineContent, lineContent,
        List.takeWhile_cons, List.takeWhile_cons]
      cases hc : endsLine (some c) with
      | true => rfl
      | false => exact congrArg (c :: ·) (ih ⟨c, rfl, hc⟩)

/-- The two inserted lines are passed over, whichever entry is looked for. -/
theorem sweep_inserted (hentry : Unbroken entry) (before : Option Char) (t : Text) :
    sweep (insertLookup ending' entry') 0 before (ending.text ++ lookupGuard ++ entry ++ ending.text ++ t)
      = Script.keeps (ending.text ++ lookupGuard ++ entry ++ ending.text)
        ++ sweep (insertLookup ending' entry') 0 (some '\n') t := by
  have hstart := insertLookup_atLineStart ending' entry'
  obtain ⟨guard, hguard⟩ : ∃ guard, lookupGuard = 'F' :: guard := ⟨lookupGuard.tail, by decide⟩
  have hline : Unbroken (guard ++ entry) := by
    have hwhole := unbroken_lookupGuard
    rw [hguard, unbroken_cons] at hwhole
    exact unbroken_append.2 ⟨hwhole.2, hentry⟩
  have hwithin : WithinLine (some 'F') := ⟨'F', rfl, by decide⟩
  have hnone : insertLookup ending' entry' (some '\n') ('F' :: ((guard ++ entry) ++ (ending.text ++ t))) = none := by
    rw [insertLookup_eq, if_neg]
    rintro ⟨-, hwiring⟩
    have hhead := congrArg List.head? hwiring
    rw [lineContent, List.takeWhile_cons, if_pos (by decide), List.head?_cons] at hhead
    exact absurd hhead (by decide)
  calc
    sweep (insertLookup ending' entry') 0 before (ending.text ++ lookupGuard ++ entry ++ ending.text ++ t)
        = sweep (insertLookup ending' entry') 0 before
            (ending.text ++ 'F' :: ((guard ++ entry) ++ (ending.text ++ t))) := by
          simp only [hguard, List.append_assoc, List.cons_append]
    _ = Script.keeps ending.text ++ .keep ['F'] :: (Script.keeps (guard ++ entry)
          ++ (Script.keeps ending.text ++ sweep (insertLookup ending' entry') 0 (some '\n') t)) := by
          rw [hstart.sweep_ending, sweep_of_none hnone, hstart.sweep_within hwithin hline, hstart.sweep_ending]
    _ = _ := by
          simp only [hguard, Script.keeps_append, Script.keeps_cons, List.append_assoc, List.cons_append]

/-- A second run of the rule, for whichever entry, counts the same wiring lines. -/
theorem swaps_insertLookup_again (hentry : Unbroken entry) (before : Option Char) (t : Text) :
    (sweep (insertLookup ending' entry') 0 before (sweep (insertLookup ending entry) 0 before t).result).swaps
      = (sweep (insertLookup ending entry) 0 before t).swaps := by
  refine sweep_induction (insertLookup_faithful ending entry)
    (motive := fun before t s => (sweep (insertLookup ending' entry') 0 before s.result).swaps = s.swaps)
    (fun before => rfl) (fun before c rest hnone hrest => ?kept) (fun before s rest _ hs hrest => ?found) before t
  case kept =>
    have hresult : Script.result (.keep [c] :: sweep (insertLookup ending entry) 0 (some c) rest)
        = c :: (sweep (insertLookup ending entry) 0 (some c) rest).result := by
      simp [Edit.result]
    have hnone' : insertLookup ending' entry' before
        (c :: (sweep (insertLookup ending entry) 0 (some c) rest).result) = none := by
      rw [insertLookup_eq] at hnone ⊢
      split at hnone
      · contradiction
      · rename_i hplain
        refine if_neg fun hwiring => hplain ⟨hwiring.1, ?_⟩
        have hline := hwiring.2
        rw [← hline]
        -- The line that starts here is the wiring line, so its first character does not end it.
        have hc : endsLine (some c) = false := by
          rw [lineContent, List.takeWhile_cons] at hline
          cases hc : endsLine (some c) with
          | false => rfl
          | true =>
              rw [hc] at hline
              exact absurd hline.symm wiringLine_ne_nil
        rw [lineContent, lineContent, List.takeWhile_cons, List.takeWhile_cons, hc]
        exact congrArg (c :: ·) (lineContent_insertLookup ending entry ⟨c, rfl, hc⟩ rest).symm
    rw [hresult, sweep_of_none hnone', Script.swaps_keep, Script.swaps_keep, hrest]
  case found =>
    rw [insertLookup_eq] at hs
    split at hs
    · rename_i hwiring
      obtain rfl := Option.some.inj hs
      rw [source_lookupEdits] at hwiring hrest ⊢
      have hresult : Script.result ([.swap [] (ending.text ++ lookupGuard ++ entry ++ ending.text), .keep wiringLine]
            ++ sweep (insertLookup ending entry) 0 wiringLine.getLast? rest)
          = ending.text ++ lookupGuard ++ entry ++ ending.text
            ++ (wiringLine ++ (sweep (insertLookup ending entry) 0 wiringLine.getLast? rest).result) := by
        simp [Edit.result]
      have hbehind : lineContent rest = [] := by
        have hwhole := hwiring.2
        rw [lineContent_append unbroken_wiringLine] at hwhole
        exact List.append_right_eq_self.1 hwhole
      have hsemicolon : WithinLine wiringLine.getLast? := ⟨';', by decide, by decide⟩
      have hagain : insertLookup ending' entry' (some '\n')
            (wiringLine ++ (sweep (insertLookup ending entry) 0 wiringLine.getLast? rest).result)
          = some [.swap [] (ending'.text ++ lookupGuard ++ entry' ++ ending'.text), .keep wiringLine] := by
        rw [insertLookup_eq, lineContent_append unbroken_wiringLine,
          lineContent_insertLookup ending entry hsemicolon, hbehind, List.append_nil]
        exact if_pos ⟨rfl, rfl⟩
      rw [hresult, sweep_inserted ending ending' entry' hentry,
        sweep_of_some hagain (source_lookupEdits _) wiringLine_ne_nil rfl]
      simp [hrest]
    · contradiction

end Again

/-! ### Matches within lines -/

section Matches

variable {needle : Text} (hne : needle ≠ []) (hneedle : Unbroken needle)

include hne hneedle

theorem matchCount_append_break {c : Char} (hc : endsLine (some c) = true) (above below : Text) :
    Text.matchCount needle (above ++ c :: below) = Text.matchCount needle above + Text.matchCount needle below :=
  Text.matchCount_append_cons hne (fun hmem => by simp [hneedle c hmem] at hc) above below

theorem matchCount_append_ending (above : Text) (ending : LineEnding) (below : Text) :
    Text.matchCount needle (above ++ (ending.text ++ below))
      = Text.matchCount needle above + Text.matchCount needle below := by
  cases ending with
  | lf => exact matchCount_append_break hne hneedle rfl above below
  | crlf =>
      have hnil : Text.matchCount needle [] = 0 := rfl
      have hfeed : Text.matchCount needle ('\n' :: below) = Text.matchCount needle below := by
        have hsplit := matchCount_append_break hne hneedle (c := '\n') rfl [] below
        rwa [List.nil_append, hnil, Nat.zero_add] at hsplit
      have hreturn := matchCount_append_break hne hneedle (c := '\r') rfl above ('\n' :: below)
      rw [hfeed] at hreturn
      exact hreturn

/-- Where a line starts, the matches above and below are apart. -/
theorem matchCount_append_of_startsLine {above : Text} {next : Option Char}
    (h : startsLine above.getLast? next = true) (below : Text) :
    Text.matchCount needle (above ++ below) = Text.matchCount needle above + Text.matchCount needle below := by
  have hnil : Text.matchCount needle [] = 0 := rfl
  rcases List.eq_nil_or_concat above with rfl | ⟨front, c, rfl⟩
  · rw [hnil, Nat.zero_add, List.nil_append]
  · rw [List.concat_eq_append, List.getLast?_concat] at h
    have hc : endsLine (some c) = true := by
      cases hc : endsLine (some c) with
      | true => rfl
      | false =>
          rw [startsLine_of_withinLine ⟨c, rfl, hc⟩] at h
          contradiction
    rw [List.concat_eq_append, List.append_assoc, List.singleton_append, matchCount_append_break hne hneedle hc,
      matchCount_append_break hne hneedle hc, hnil, Nat.add_zero]

/-- What is matched within a line is matched as often as before, and in each inserted line. -/
theorem matchCount_insertLookup (ending : LineEnding) (entry t : Text) :
    Text.matchCount needle ((insertLookup ending entry).script t).result
      = Text.matchCount needle t
        + ((insertLookup ending entry).script t).swaps * Text.matchCount needle (lookupGuard ++ entry) := by
  refine sweep_induction (insertLookup_faithful ending entry)
    (motive := fun before t s => ∀ above : Text, above.getLast? = before →
      Text.matchCount needle (above ++ s.result)
        = Text.matchCount needle (above ++ t) + s.swaps * Text.matchCount needle (lookupGuard ++ entry))
    (fun before above _ => by simp) (fun before c rest _ hrest above _ => ?kept)
    (fun before s rest _ hs hrest above habove => ?found) none t [] rfl
  case kept =>
    have hbelow := hrest (above ++ [c]) List.getLast?_concat
    simpa [Edit.result] using hbelow
  case found =>
    rw [insertLookup_eq] at hs
    split at hs
    · rename_i hwiring
      obtain rfl := Option.some.inj hs
      rw [source_lookupEdits] at hwiring hrest ⊢
      have hlast : (above ++ (ending.text ++ lookupGuard ++ entry ++ ending.text ++ wiringLine)).getLast?
          = wiringLine.getLast? := by
        rw [List.getLast?_append, List.getLast?_append]
        rfl
      have hbelow := hrest _ hlast
      have hapart : Text.matchCount needle (above ++ (wiringLine ++ rest))
          = Text.matchCount needle above + Text.matchCount needle (wiringLine ++ rest) :=
        matchCount_append_of_startsLine hne hneedle (habove ▸ hwiring.1) _
      have hinserted : Text.matchCount needle
            (above ++ (ending.text ++ lookupGuard ++ entry ++ ending.text ++ wiringLine) ++ rest)
          = Text.matchCount needle above + (Text.matchCount needle (lookupGuard ++ entry)
            + Text.matchCount needle (wiringLine ++ rest)) := by
        rw [← matchCount_append_ending hne hneedle (lookupGuard ++ entry) ending,
          ← matchCount_append_ending hne hneedle above ending]
        simp only [List.append_assoc]
      have hresult : above ++ Script.result
            ([.swap [] (ending.text ++ lookupGuard ++ entry ++ ending.text), .keep wiringLine]
              ++ sweep (insertLookup ending entry) 0 wiringLine.getLast? rest)
          = above ++ (ending.text ++ lookupGuard ++ entry ++ ending.text ++ wiringLine)
            ++ (sweep (insertLookup ending entry) 0 wiringLine.getLast? rest).result := by
        simp [Edit.result]
      rw [hresult, hbelow, hinserted, hapart]
      simp only [Script.swaps_append, Script.swaps_swap, Script.swaps_keep, Script.swaps_nil, Nat.add_mul]
      omega
    · contradiction

end Matches

end Rule

end CanvasExport
