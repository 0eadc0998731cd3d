/-
Module: CanvasExport.Rule.Lookup
Layer: Rule
Purpose: The lookup entry of a composition. Every export ends its namespace with one wiring line; right
  before it the file's stem is registered under the composition's id. An entry that is there already counts
  and nothing is added.
Main exports: lookupEntry, wiringLine, insertLookup, insertLookup_faithful, lookupScript
-/
import CanvasExport.Text.Edit
import CanvasExport.Text.Escaped
import CanvasExport.Text.Line

namespace CanvasExport.Rule

/-- The line that hands the namespace its globals. -/
def wiringLine : Text := "\x7d)(createjs = createjs||\x7b\x7d, AdobeAn = AdobeAn||\x7b\x7d);".toList

/-- The statement that registers a stem. The key is a string literal, so no stem can break out of it. -/
def lookupEntry (stem : Text) : Text :=
  "FILE_TO_ID[".toList ++ Text.literal stem ++ "] = lib.properties.id;".toList

/-- The statement that makes sure the registry exists. -/
def lookupGuard : Text := "FILE_TO_ID = window.FILE_TO_ID || \x7b\x7d; ".toList

/-- Puts the entry on a line of its own before each line that is exactly the wiring line. -/
def insertLookup (ending : LineEnding) (entry : Text) : Recognizer := fun before t =>
  if startsLine before t.head? then do
    let rest ← Text.strip? wiringLine t
    if endsLine rest.head? then
      some [.swap [] (ending.text ++ lookupGuard ++ entry ++ ending.text), .keep wiringLine]
    else
      none
  else
    none

theorem insertLookup_faithful (ending : LineEnding) (entry : Text) :
    (insertLookup ending entry).Faithful := by
  intro before t s hs
  rw [insertLookup] at hs
  split at hs
  · obtain ⟨rest, hstrip, hs⟩ := Option.bind_eq_some_iff.1 hs
    split at hs
    · obtain rfl := Option.some.inj hs
      have hsource : ∀ inserted : Text,
          Script.source [.swap [] inserted, .keep wiringLine] = wiringLine := by
        intro inserted
        simp [Script.source, Edit.source]
      rw [hsource]
      exact ⟨by decide, rest, Text.strip?_eq_some_iff.1 hstrip⟩
    · contradiction
  · contradiction

/-- The script of the lookup rule. -/
def lookupScript (ending : LineEnding) (stem : Text) (t : Text) : Script :=
  let entry := lookupEntry stem
  let registered := (Recognizer.literal entry entry).script t
  if registered.swaps > 0 then registered else (insertLookup ending entry).script t

end CanvasExport.Rule
