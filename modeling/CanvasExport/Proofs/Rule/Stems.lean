/-
Module: CanvasExport.Proofs.Rule.Stems
Layer: Proofs
Purpose: Lookup entries of different stems. An entry is found by its text alone; since the literal of a stem shows where
  it ends and reads back as the stem, the entry of one stem never lies in the line that is written for another, nor
  twice in its own. So registering a stem once is enough, and leaves what is known about every other stem alone.
Main exports: not_infix_entryLine_of_ne, matchCount_entryLine_self, fileIdLookup_apply_of_unregistered,
  fileIdLookup_separatesStems
-/
import CanvasExport.Proofs.Json.Reading
import CanvasExport.Proofs.Rule.Entry
import CanvasExport.Proofs.Rule.Wiring

namespace CanvasExport

namespace Rule

/-! ### The literal of a stem -/

/-- The characters that are no control characters. -/
def printable (c : Char) : Bool :=
  0x20 ≤ c.toNat

theorem writtenIn_escapedChar (c : Char) : WrittenIn printable (Text.escapedChar c) := by
  fun_cases Text.escapedChar c with
  | case1 | case2 | case3 | case4 | case5 | case6 | case7 => decide
  | case8 c _ _ _ _ _ _ _ hcontrol =>
      have hlead : WrittenIn printable ['\\', 'u', '0', '0'] := by decide
      have hdigit : ∀ n, n < 16 → printable (Text.hexDigit n) = true := by decide
      have hhigh := hdigit (c.toNat / 16) (by omega)
      have hlow := hdigit (c.toNat % 16) (by omega)
      exact hlead.append (WrittenIn.cons_iff.2 ⟨hhigh, WrittenIn.cons_iff.2 ⟨hlow, .nil⟩⟩)
  | case9 c _ _ _ _ _ _ _ hcontrol =>
      have hplain : printable c = true := by simpa [printable] using hcontrol
      exact WrittenIn.cons_iff.2 ⟨hplain, .nil⟩

/-- A literal holds no control characters. -/
theorem writtenIn_literal (stem : Text) : WrittenIn printable (Text.literal stem) := by
  have hquote : WrittenIn printable ['"'] := by decide
  refine (hquote.append fun c hc => ?_).append hquote
  obtain ⟨d, -, hd⟩ := List.mem_flatMap.1 hc
  exact writtenIn_escapedChar d c hd

/-- Where a literal ends, and what it is the literal of, shows in the text. -/
theorem eq_of_escaped_append {stem other rest rest' : Text}
    (h : Text.escaped other ++ '"' :: rest = Text.escaped stem ++ '"' :: rest') : other = stem := by
  have hother := Json.stringBody_escaped other rest
  rw [h, Json.stringBody_escaped stem rest'] at hother
  exact (Prod.mk.inj (Except.ok.inj hother)).1.symm

/-! ### Entries in entry lines -/

/-- The entry of a stem does not lie in the line of another one. The quotes of the line tell: behind the first one
    there could only be the literal of the same stem, those within the literal have a backslash in front, and behind
    the last one there is none to close a literal. -/
theorem not_infix_entryLine_of_ne {stem other : Text} (h : other ≠ stem) :
    ¬ lookupEntry other <:+: entryLine stem := by
  rintro ⟨above, below, hwhole⟩
  have hfirst : '"' ∉ lookupGuard ++ entryOpening := by decide
  have hclosing : '"' ∉ entryClosing := by decide
  have hpair : ¬ ['[', '"'] <:+: Text.escaped stem := not_pair_infix_escaped (by decide) stem
  have hsplit : (above ++ entryOpening) ++ '"' :: (Text.escaped other ++ '"' :: (entryClosing ++ below))
      = (lookupGuard ++ entryOpening) ++ '"' :: (Text.escaped stem ++ '"' :: entryClosing) := by
    rw [entryLine, lookupEntry_split, lookupEntry_split] at hwhole
    simpa using hwhole
  obtain ⟨gap, hgap, hrest⟩ := exists_of_append_cons_eq hfirst hsplit
  cases gap with
  | nil => exact h (eq_of_escaped_append (List.cons.inj hrest).2.symm)
  | cons quote gap =>
      obtain ⟨rfl, hliteral⟩ := List.cons.inj hrest
      -- Behind the last quote of the line there is no literal.
      have hbehind : ∀ gap', '"' :: entryClosing
          ≠ gap' ++ '"' :: (Text.escaped other ++ '"' :: (entryClosing ++ below)) := by
        intro gap' heq
        have hlast : '"' :: (Text.escaped other ++ '"' :: (entryClosing ++ below)) <:+ '"' :: entryClosing :=
          ⟨gap', heq.symm⟩
        rcases List.suffix_cons_iff.1 hlast with hsame | hlater
        · exact hclosing ((List.cons.inj hsame).2 ▸ by simp)
        · exact hclosing (hlater.subset (by simp))
      -- The quote that the other entry opens with stands behind a bracket.
      obtain ⟨front, rfl⟩ : ∃ front, gap = front ++ ['['] := by
        have hopening : entryOpening.getLast? = some '[' := by decide
        have hlast := congrArg List.getLast? hgap
        rw [List.getLast?_append, List.getLast?_append, hopening] at hlast
        rcases List.eq_nil_or_concat gap with rfl | ⟨front, c, rfl⟩
        · simp at hlast
        · rw [List.concat_eq_append, ← List.cons_append, List.getLast?_concat] at hlast
          obtain rfl : '[' = c := Option.some.inj hlast
          exact ⟨front, List.concat_eq_append⟩
      rcases List.append_eq_append_iff.1 hliteral with ⟨gap', -, hbelow⟩ | ⟨gap', hescaped, hbelow⟩
      · exact hbehind gap' hbelow
      · cases gap' with
        | nil => exact hbehind [] hbelow.symm
        | cons c gap' =>
            obtain rfl := (List.cons.inj hbelow).1
            exact hpair ⟨front, gap', by rw [hescaped]; simp⟩

/-- In its own line an entry lies once. -/
theorem matchCount_entryLine_self (stem : Text) : Text.matchCount (lookupEntry stem) (entryLine stem) = 1 := by
  refine Text.matchCount_append_self (lookupEntry_ne_nil stem) fun start hne hstart hentry => ?_
  obtain ⟨name, hname, hbracket⟩ : ∃ name, entryOpening = name ++ ['['] ∧ '[' ∉ name :=
    ⟨"FILE_TO_ID".toList, by decide, by decide⟩
  have hguard : '[' ∉ lookupGuard := by decide
  obtain ⟨below, hwhole⟩ := hentry
  have hbefore : '[' ∉ start ++ name := by
    rw [List.mem_append, not_or]
    exact ⟨fun hmem => hguard (hstart.subset hmem), hbracket⟩
  rw [lookupEntry_split, hname] at hwhole
  simp only [List.append_assoc, List.cons_append, List.nil_append] at hwhole
  rw [← List.append_assoc start] at hwhole
  obtain ⟨gap, hgap, -⟩ := exists_of_append_cons_eq hbefore hwhole
  have hlength := congrArg List.length hgap
  have hpos := List.length_pos_iff.2 hne
  simp only [List.length_append] at hlength
  omega

/-! ### The lookup rule -/

section Lookup

variable {stem : Text} (ending : LineEnding) {t : Text}

/-- Where the entry is registered its matches are counted. -/
theorem apply_fileIdLookup_of_registered (h : 0 < Text.matchCount (lookupEntry stem) t) :
    fileIdLookup.apply ⟨stem, ending⟩ t = ⟨t, Text.matchCount (lookupEntry stem) t⟩ := by
  have hcount := Recognizer.swaps_literal_eq_matchCount (lookupEntry stem) (lookupEntry stem) t
  rw [Rule.apply, lookupScript, hcount, if_pos h, Rewrite.ofScript, hcount,
    Recognizer.result_literal_self (lookupEntry_ne_nil stem)]

/-- Where it is not, the wiring lines are counted, and each gets its entry. -/
theorem apply_fileIdLookup_of_unregistered (h : Text.matchCount (lookupEntry stem) t = 0) :
    fileIdLookup.apply ⟨stem, ending⟩ t = .ofScript ((insertLookup ending (lookupEntry stem)).script t) := by
  have hcount := Recognizer.swaps_literal_eq_matchCount (lookupEntry stem) (lookupEntry stem) t
  rw [Rule.apply, lookupScript, hcount, if_neg (by omega)]

theorem result_insertLookup_of_swaps {entry : Text} (h : ((insertLookup ending entry).script t).swaps = 0) :
    ((insertLookup ending entry).script t).result = t := by
  rw [Script.result_of_swaps_eq_zero h, Recognizer.source_script (insertLookup_faithful ending entry)]

/-- The number of wiring lines does not depend on the entry. -/
theorem swaps_insertLookup_eq (ending' : LineEnding) (entry entry' : Text) :
    ((insertLookup ending' entry').script t).swaps = ((insertLookup ending entry).script t).swaps := by
  rw [swaps_insertLookup, swaps_insertLookup]

/-- Each wiring line that gets an entry has one match of it. -/
theorem matchCount_insertLookup_self (h : Text.matchCount (lookupEntry stem) t = 0) :
    Text.matchCount (lookupEntry stem) ((insertLookup ending (lookupEntry stem)).script t).result
      = ((insertLookup ending (lookupEntry stem)).script t).swaps := by
  have hmatches := matchCount_insertLookup (lookupEntry_ne_nil stem) (unbroken_lookupEntry stem) ending
    (lookupEntry stem) t
  have hself : Text.matchCount (lookupEntry stem) (lookupGuard ++ lookupEntry stem) = 1 :=
    matchCount_entryLine_self stem
  rw [hmatches, h, hself, Nat.zero_add, Nat.mul_one]

/-- The rule changes a text exactly if the entry is not registered and there is a wiring line to put it above. -/
theorem text_ne_iff : (fileIdLookup.apply ⟨stem, ending⟩ t).text ≠ t ↔
    Text.matchCount (lookupEntry stem) t = 0 ∧ 0 < ((insertLookup ending (lookupEntry stem)).script t).swaps := by
  rcases Nat.eq_zero_or_pos (Text.matchCount (lookupEntry stem) t) with hzero | hpos
  · rw [apply_fileIdLookup_of_unregistered ending hzero, Rewrite.ofScript]
    refine ⟨fun hne => ⟨hzero, Nat.pos_of_ne_zero fun hswaps => ?_⟩, fun hwiring heq => ?_⟩
    · exact hne (result_insertLookup_of_swaps ending hswaps)
    · have hmatches := matchCount_insertLookup_self ending hzero
      have hpos := hwiring.2
      dsimp only at heq
      rw [heq, hzero] at hmatches
      omega
  · rw [apply_fileIdLookup_of_registered ending hpos]
    exact iff_of_false (fun hne => hne rfl) (fun h => by omega)

/-- A second run for the same stem changes nothing and counts the same. -/
theorem apply_fileIdLookup_again (ending' : LineEnding) :
    fileIdLookup.apply ⟨stem, ending'⟩ (fileIdLookup.apply ⟨stem, ending⟩ t).text
      = fileIdLookup.apply ⟨stem, ending⟩ t := by
  rcases Nat.eq_zero_or_pos (Text.matchCount (lookupEntry stem) t) with hzero | hpos
  · rw [apply_fileIdLookup_of_unregistered ending hzero, Rewrite.ofScript]
    have hmatches := matchCount_insertLookup_self ending hzero
    rcases Nat.eq_zero_or_pos ((insertLookup ending (lookupEntry stem)).script t).swaps with hnone | hsome
    · have hsame := result_insertLookup_of_swaps ending hnone
      have hnone' := (swaps_insertLookup_eq ending ending' (lookupEntry stem) (lookupEntry stem)).trans hnone
      dsimp only
      rw [hsame, apply_fileIdLookup_of_unregistered ending' hzero, Rewrite.ofScript, hnone, hnone',
        result_insertLookup_of_swaps ending' hnone']
    · dsimp only
      rw [apply_fileIdLookup_of_registered ending' (hmatches ▸ hsome), hmatches]
  · rw [apply_fileIdLookup_of_registered ending hpos]
    exact apply_fileIdLookup_of_registered ending' hpos

end Lookup

/-! ### The lookup rule for two stems -/

section Stems

variable {stem other : Text} (ending ending' : LineEnding) (t : Text)

/-- Registering a stem leaves as many entries of another one. -/
theorem matchCount_apply_fileIdLookup (h : other ≠ stem) :
    Text.matchCount (lookupEntry other) (fileIdLookup.apply ⟨stem, ending⟩ t).text
      = Text.matchCount (lookupEntry other) t := by
  rcases Nat.eq_zero_or_pos (Text.matchCount (lookupEntry stem) t) with hzero | hpos
  · have hmatches := matchCount_insertLookup (lookupEntry_ne_nil other) (unbroken_lookupEntry other) ending
      (lookupEntry stem) t
    have hline : Text.matchCount (lookupEntry other) (lookupGuard ++ lookupEntry stem) = 0 :=
      (Text.matchCount_eq_zero_iff (lookupEntry_ne_nil other)).2 (not_infix_entryLine_of_ne h)
    rw [hline, Nat.mul_zero, Nat.add_zero] at hmatches
    rw [apply_fileIdLookup_of_unregistered ending hzero]
    exact hmatches
  · rw [apply_fileIdLookup_of_registered ending hpos]

/-- It leaves as many wiring lines. -/
theorem swaps_apply_fileIdLookup (entry : Text) :
    ((insertLookup ending' entry).script (fileIdLookup.apply ⟨stem, ending⟩ t).text).swaps
      = ((insertLookup ending' entry).script t).swaps := by
  rcases Nat.eq_zero_or_pos (Text.matchCount (lookupEntry stem) t) with hzero | hpos
  · have hagain := swaps_insertLookup_again ending ending' entry (unbroken_lookupEntry stem) none t
    rw [apply_fileIdLookup_of_unregistered ending hzero]
    exact hagain.trans (swaps_insertLookup_eq ending' ending entry (lookupEntry stem))
  · rw [apply_fileIdLookup_of_registered ending hpos]

theorem replacements_apply_fileIdLookup :
    (fileIdLookup.apply ⟨stem, ending⟩ t).replacements
      = if Text.matchCount (lookupEntry stem) t = 0 then ((insertLookup ending (lookupEntry stem)).script t).swaps
        else Text.matchCount (lookupEntry stem) t := by
  split
  · rename_i hzero
    rw [apply_fileIdLookup_of_unregistered ending hzero]
    rfl
  · rename_i hpos
    rw [apply_fileIdLookup_of_registered ending (Nat.pos_of_ne_zero hpos)]

end Stems

/-- The lookup rule keeps stems apart. The key of an entry is a literal without control characters that reads back as
    the stem. An entry that is there is counted and nothing is changed; otherwise it is put above each wiring line,
    behind what makes sure that the registry exists, and these lines are counted. A second run changes nothing and
    counts the same. For another stem the rule finds as many entries as without the first stem, counts as much, and
    emits its own entry if it would have. -/
theorem fileIdLookup_separatesStems (stem : Text) (ending : LineEnding) (t : Text) :
    (∃ key, lookupEntry stem = "FILE_TO_ID[".toList ++ key ++ "] = lib.properties.id;".toList
        ∧ (∀ c ∈ key, 0x20 ≤ c.toNat) ∧ ∀ rest, Json.readText (key ++ rest) = .ok (stem, rest))
      ∧ (lookupEntry stem <:+: t →
          fileIdLookup.apply ⟨stem, ending⟩ t = ⟨t, Text.matchCount (lookupEntry stem) t⟩)
      ∧ (¬ lookupEntry stem <:+: t →
          fileIdLookup.apply ⟨stem, ending⟩ t
            = ⟨(Script.inserting (fun place =>
                if WiringLineAt t place then ending.text ++ lookupGuard ++ lookupEntry stem ++ ending.text
                else []) t).result,
              (List.range t.length).countP fun place => WiringLineAt t place⟩)
      ∧ (∀ ending', fileIdLookup.apply ⟨stem, ending'⟩ (fileIdLookup.apply ⟨stem, ending⟩ t).text
          = fileIdLookup.apply ⟨stem, ending⟩ t)
      ∧ ∀ other, other ≠ stem →
          Text.matchCount (lookupEntry other) (fileIdLookup.apply ⟨stem, ending⟩ t).text
            = Text.matchCount (lookupEntry other) t
          ∧ ∀ ending', (fileIdLookup.apply ⟨other, ending'⟩ (fileIdLookup.apply ⟨stem, ending⟩ t).text).replacements
              = (fileIdLookup.apply ⟨other, ending'⟩ t).replacements
            ∧ ((fileIdLookup.apply ⟨other, ending'⟩ (fileIdLookup.apply ⟨stem, ending⟩ t).text).text
                  ≠ (fileIdLookup.apply ⟨stem, ending⟩ t).text
                ↔ (fileIdLookup.apply ⟨other, ending'⟩ t).text ≠ t) := by
  have hne := lookupEntry_ne_nil stem
  refine ⟨⟨Text.literal stem, rfl, fun c hc => ?control, fun rest => ?key⟩, fun hentry => ?registered,
    fun hentry => ?inserted, fun ending' => apply_fileIdLookup_again ending ending', fun other hother => ?other⟩
  case control => exact of_decide_eq_true (writtenIn_literal stem c hc)
  case key =>
    have hblanks : Json.Blanks [] := .nil
    exact Json.readText_literal hblanks stem rest
  case registered =>
    exact apply_fileIdLookup_of_registered ending ((Text.matchCount_pos_iff hne).2 hentry)
  case inserted =>
    rw [apply_fileIdLookup_of_unregistered ending ((Text.matchCount_eq_zero_iff hne).2 hentry), Rewrite.ofScript,
      result_insertLookup, swaps_insertLookup]
  case other =>
    have hmatches := matchCount_apply_fileIdLookup ending t hother
    refine ⟨hmatches, fun ending' => ⟨?_, ?_⟩⟩
    · rw [replacements_apply_fileIdLookup, replacements_apply_fileIdLookup, hmatches,
        swaps_apply_fileIdLookup ending ending' t]
    · rw [text_ne_iff, text_ne_iff, hmatches, swaps_apply_fileIdLookup ending ending' t]

/-- A stem that looks like the entry of another one. -/
def imitation : Text :=
  "FILE_TO_ID[\"walk\"] = lib.properties.id;".toList

/-- Once the imitation is registered above the wiring line, the stem that it imitates still is not. -/
theorem fileIdLookup_separatesStems_imitation :
    "walk".toList ≠ imitation
      ∧ fileIdLookup.apply ⟨imitation, .lf⟩ wiringLine = ⟨
        "\nFILE_TO_ID = window.FILE_TO_ID || \x7b\x7d; ".toList
          ++ "FILE_TO_ID[\"FILE_TO_ID[\\\"walk\\\"] = lib.properties.id;\"] = lib.properties.id;\n".toList
          ++ "\x7d)(createjs = createjs||\x7b\x7d, AdobeAn = AdobeAn||\x7b\x7d);".toList, 1⟩
      ∧ Text.matchCount (lookupEntry "walk".toList) (fileIdLookup.apply ⟨imitation, .lf⟩ wiringLine).text = 0 := by
  have hne : "walk".toList ≠ imitation := by decide
  obtain ⟨-, -, hinserted, -, hother⟩ := fileIdLookup_separatesStems imitation .lf wiringLine
  have habsent : ¬ lookupEntry imitation <:+: wiringLine := by decide +kernel
  refine ⟨hne, ?_, ?_⟩
  · rw [hinserted habsent]
    decide +kernel
  · rw [(hother _ hne).1]
    decide +kernel

end Rule

end CanvasExport
