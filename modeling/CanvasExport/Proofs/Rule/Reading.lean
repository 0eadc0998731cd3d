/-
Module: CanvasExport.Proofs.Rule.Reading
Layer: Proofs
Purpose: What gates read in a line: the first tag, whether it names an accessory, the last registration word and
  what stands behind it. None of that depends on the words of bitmap paths, so remapping a line changes
  neither what a gate asks for nor what it inserts.
Main exports: LayerGate.guardFor?_bitmap, throughRegistration?_append_cons, LayerGate.next_remapped,
  LayerGate.insertion?_remapped
-/
import CanvasExport.Proofs.Rule.Bitmap
import CanvasExport.Proofs.Rule.Guard

namespace CanvasExport.Rule

/-! ### Tags beside bitmaps -/

namespace LayerGate

theorem quote_not_mem_tag (gate : LayerGate) : '"' ∉ gate.tag := by
  have hopening : '"' ∉ "// figure".toList := by decide
  have hnumeral : '"' ∉ Text.numeral gate.figure := (writtenIn_numeral gate.figure).not_mem (by decide)
  have hword : '"' ∉ gate.kind.word := by cases gate.kind <;> decide
  intro hmem
  rcases List.mem_append.1 hmem with hmem | hmem
  · exact (List.mem_append.1 hmem).elim hopening hnumeral
  · exact hword hmem

/-- A quote ends the number of a variant, and is within what follows an avatar's tag. -/
theorem suffix?_append_quote (gate : LayerGate) (above below : Text) :
    gate.suffix? (above ++ '"' :: below)
      = (gate.suffix? above).map fun suffix => if gate.kind = .avatar then suffix ++ '"' :: below else suffix := by
  have hdigits : ∀ rest : Text, (rest ++ '"' :: below).takeWhile Char.isDigit = rest.takeWhile Char.isDigit := by
    intro rest
    induction rest with
    | nil => rfl
    | cons c rest ih => cases hdigit : c.isDigit <;> simp [hdigit, ih]
  rw [suffix?, suffix?, strip?_append_cons gate.quote_not_mem_tag]
  cases hstrip : Text.strip? gate.tag above with
  | none => rfl
  | some rest =>
      cases hkind : gate.kind with
      | avatar => simp
      | hair | eyes =>
          simp only [Option.map_some, Option.bind_eq_bind, Option.bind_some, hdigits]
          split <;> simp

theorem firstSuffix?_append_quote (gate : LayerGate) (above below : Text) :
    gate.firstSuffix? (above ++ '"' :: below)
      = ((gate.firstSuffix? above).map fun suffix =>
        if gate.kind = .avatar then suffix ++ '"' :: below else suffix).or (gate.firstSuffix? below) := by
  induction above with
  | nil =>
      have hquote : gate.suffix? ('"' :: below) = none := gate.suffix?_cons_of_ne (by decide) below
      simp [firstSuffix?, hquote]
  | cons c above ih =>
      have hhere := gate.suffix?_append_quote (c :: above) below
      rw [List.cons_append] at hhere
      rw [List.cons_append, firstSuffix?, firstSuffix?, hhere, ih]
      cases gate.suffix? (c :: above) <;> simp

end LayerGate

/-- The text behind a bitmap's quote, remapped or not, names an accessory or not by its rest alone. -/
theorem isAccessory_bitmap (variant : Variant) (above below : Text) :
    isAccessory (above ++ '"' :: (imageWord ++ '/' :: below))
      = isAccessory (above ++ '"' :: (assetWord ++ '/' :: (cacheWord variant ++ '/' :: below))) := by
  have himage : isAccessory imageWord = false := by decide
  have hasset : isAccessory assetWord = false := by decide
  have hcache : isAccessory (cacheWord variant) = false := by cases variant <;> decide
  have hquote : Char.toLower '"' ∉ "accessory".toList := by decide
  have hslash : Char.toLower '/' ∉ "accessory".toList := by decide
  rw [isAccessory_append_cons hquote, isAccessory_append_cons hquote, isAccessory_append_cons hslash,
    isAccessory_append_cons hslash, isAccessory_append_cons hslash, himage, hasset, hcache]
  rfl

namespace LayerGate

variable (gate : LayerGate) (selection : Text)

theorem suffix?_slash_cons {c : Char} (hc : c ≠ '/') (t : Text) : gate.suffix? ('/' :: c :: t) = none := by
  cases hstrip : Text.strip? gate.tag ('/' :: c :: t) with
  | none => simp [suffix?, hstrip]
  | some rest =>
      have hwhole := Text.strip?_eq_some_iff.1 hstrip
      have hsecond : c = '/' := (List.cons.inj (List.cons.inj hwhole).2).1
      exact absurd hsecond hc

/-- Among the words of a path only the last slash can start a tag. -/
theorem guardFor?_path (variant : Variant) (below : Text) :
    gate.guardFor? selection (imageWord ++ '/' :: below)
      = gate.guardFor? selection (assetWord ++ '/' :: (cacheWord variant ++ '/' :: below)) := by
  have himage : '/' ∉ imageWord := writtenIn_imageWord.not_mem rfl
  have hasset : '/' ∉ assetWord := writtenIn_assetWord.not_mem rfl
  have hcache : '/' ∉ cacheWord variant := (writtenIn_cacheWord variant).not_mem rfl
  obtain ⟨rest, hrest⟩ : ∃ rest, cacheWord variant = 'c' :: rest := by cases variant <;> exact ⟨_, rfl⟩
  have hfirst : gate.guardFor? selection ('/' :: (cacheWord variant ++ '/' :: below))
      = gate.guardFor? selection (cacheWord variant ++ '/' :: below) := by
    refine gate.guardFor?_cons_of_none selection ?_
    rw [hrest]
    exact gate.suffix?_slash_cons (by decide) _
  rw [gate.guardFor?_append_of_not_mem selection himage, gate.guardFor?_append_of_not_mem selection hasset,
    hfirst, gate.guardFor?_append_of_not_mem selection hcache]

theorem guardFor?_bitmap (variant : Variant) (above below : Text) :
    gate.guardFor? selection (above ++ '"' :: (imageWord ++ '/' :: below))
      = gate.guardFor? selection (above ++ '"' :: (assetWord ++ '/' :: (cacheWord variant ++ '/' :: below))) := by
  rw [guardFor?, guardFor?, gate.firstSuffix?_append_quote, gate.firstSuffix?_append_quote]
  cases hfirst : gate.firstSuffix? above with
  | none => simpa [guardFor?] using gate.guardFor?_path selection variant below
  | some suffix =>
      cases hkind : gate.kind with
      | avatar =>
          simp [isAccessory_bitmap variant suffix below, guard, condition, hkind]
      | hair | eyes => simp

end LayerGate

/-- A guard is not remapped, and nothing is remapped across its end. -/
theorem remapped_behind_guard (variant : Variant) {guard : Text} (h : IsGuardText guard) (content : Text) :
    remapped variant (guard ++ content) = guard ++ remapped variant content := by
  have hinline := remapBitmaps_inline variant
  have hquote : '"' ∉ guard := h.written.not_mem rfl
  obtain ⟨front, rfl⟩ := h.closed
  have hstop : (remapBitmaps variant.cacheDirectory).StopsAt ')' := Recognizer.literal_stopsAt _ (by decide)
  have hfront : remapped variant front = front :=
    remapped_of_quote_not_mem variant fun hmem => hquote (List.mem_append_left _ hmem)
  have hscript := Recognizer.script_append_stop hinline.faithful hinline.contextFree hstop front content
  rw [remapped] at hfront
  rw [List.append_assoc, List.singleton_append, remapped, hscript, Script.result_append, hfront]
  simp [remapped, Edit.result]

/-! ### Registration words beside bitmaps -/

theorem throughRegistration?_cons {c : Char} (h : c ≠ '\n') (rest : Text) :
    throughRegistration? (c :: rest)
      = ((throughRegistration? rest).map fun found => (c :: found.1, found.2)).or
        ((Text.strip? registration (c :: rest)).map fun after => (registration, after)) := by
  rw [throughRegistration?, if_neg h]
  cases throughRegistration? rest <;> rfl

/-- The last registration word of a line lies on one side of a character that the word does not hold. -/
theorem throughRegistration?_append_cons {above : Text} (habove : Unbroken above) {c : Char}
    (hc : c ∉ registration) (hlf : c ≠ '\n') (below : Text) :
    throughRegistration? (above ++ c :: below)
      = ((throughRegistration? below).map fun found => (above ++ c :: found.1, found.2)).or
        ((throughRegistration? above).map fun found => (found.1, found.2 ++ c :: below)) := by
  induction above with
  | nil =>
      have hstrip := strip?_append_cons hc [] below
      have hnone : Text.strip? registration [] = none := by decide
      rw [List.nil_append, hnone] at hstrip
      rw [List.nil_append, throughRegistration?_cons hlf, hstrip]
      cases throughRegistration? below <;> rfl
  | cons d above ih =>
      rw [unbroken_cons] at habove
      have hd : d ≠ '\n' := by
        rintro rfl
        exact absurd habove.1 (by decide)
      have hstrip := strip?_append_cons hc (d :: above) below
      rw [List.cons_append] at hstrip
      rw [List.cons_append, throughRegistration?_cons hd, ih habove.2, throughRegistration?_cons hd, hstrip]
      cases throughRegistration? below with
      | some found => rfl
      | none =>
          cases throughRegistration? above with
          | some found => rfl
          | none => cases Text.strip? registration (d :: above) <;> rfl

theorem throughRegistration?_word {word : Text} (hword : throughRegistration? word = none)
    (hunbroken : Unbroken word) (below : Text) :
    throughRegistration? (word ++ '/' :: below)
      = (throughRegistration? below).map fun found => (word ++ '/' :: found.1, found.2) := by
  rw [throughRegistration?_append_cons hunbroken (by decide) (by decide), hword]
  cases throughRegistration? below <;> rfl

namespace LayerGate

variable (gate : LayerGate) (selection : Text)

/-- What a gate with a guard at hand reads in a line. -/
def reading (guard content : Text) : Option Text × Option (Bool × Option Text) :=
  (gate.guardFor? selection content,
    (throughRegistration? content).map fun found => (guard.isPrefixOf found.1, gate.guardFor? selection found.2))

/-- A gate reads the same in a remapped line. -/
theorem reading_remapped (variant : Variant) {guard : Text} (hguard : '"' ∉ guard) {content : Text}
    (hcontent : Unbroken content) :
    gate.reading selection guard (remapped variant content) = gate.reading selection guard content := by
  refine view_remapped (gate.reading selection guard) variant (fun above below habove _ => ?_) hcontent
  have himage : throughRegistration? imageWord = none := by decide
  have hasset : throughRegistration? assetWord = none := by decide
  have hcache : throughRegistration? (cacheWord variant) = none := by cases variant <;> decide
  have hhead : ∀ rest, guard.isPrefixOf (above ++ '"' :: rest) = guard.isPrefixOf above := by
    intro rest
    rw [Bool.eq_iff_iff, List.isPrefixOf_iff_prefix, List.isPrefixOf_iff_prefix, prefix_append_cons_iff hguard]
  rw [reading, reading, gate.guardFor?_bitmap selection variant above below,
    throughRegistration?_append_cons habove (by decide) (by decide),
    throughRegistration?_append_cons habove (by decide) (by decide),
    throughRegistration?_word himage (writtenIn_imageWord.unbroken rfl rfl),
    throughRegistration?_word hasset (writtenIn_assetWord.unbroken rfl rfl),
    throughRegistration?_word hcache ((writtenIn_cacheWord variant).unbroken rfl rfl)]
  cases throughRegistration? below with
  | some found => simp [hhead]
  | none =>
      cases throughRegistration? above with
      | none => rfl
      | some found => simp [gate.guardFor?_bitmap selection variant found.2 below]

theorem isSome_throughRegistration?_remapped (variant : Variant) {content : Text} (hcontent : Unbroken content) :
    (throughRegistration? (remapped variant content)).isSome = (throughRegistration? content).isSome := by
  have hreading := reading_remapped ⟨0, .avatar⟩ [] variant (List.not_mem_nil : '"' ∉ []) hcontent
  simp only [reading, Prod.mk.injEq] at hreading
  have hsome := congrArg Option.isSome hreading.2
  simpa using hsome

theorem next_remapped (variant : Variant) {waiting : Option Text} {content : Text} (hcontent : Unbroken content) :
    gate.next selection waiting (remapped variant content) = gate.next selection waiting content := by
  have hreading := gate.reading_remapped selection variant (List.not_mem_nil : '"' ∉ []) hcontent
  simp only [reading, Prod.mk.injEq] at hreading
  cases waiting with
  | none => exact hreading.1
  | some guard =>
      have hthrough := hreading.2
      simp only [next]
      cases hnew : throughRegistration? (remapped variant content) <;>
        cases hold : throughRegistration? content <;> simp [hnew, hold] at hthrough ⊢
      exact hthrough

theorem insertion?_remapped (variant : Variant) {waiting : Option Text}
    (hguard : ∀ guard, waiting = some guard → '"' ∉ guard) {content : Text} (hcontent : Unbroken content) :
    insertion? waiting (remapped variant content) = insertion? waiting content := by
  cases waiting with
  | none => rfl
  | some guard =>
      have hreading := reading_remapped ⟨0, .avatar⟩ [] variant (hguard guard rfl) hcontent
      simp only [reading, Prod.mk.injEq] at hreading
      have hthrough := hreading.2
      -- The insertion depends on the line and its guard alone, so any gate's reading will do.
      cases hnew : throughRegistration? (remapped variant content) with
      | none =>
          cases hold : throughRegistration? content with
          | none => rw [insertion?_eq_none hnew, insertion?_eq_none hold]
          | some found => simp [hnew, hold] at hthrough
      | some written =>
          cases hold : throughRegistration? content with
          | none => simp [hnew, hold] at hthrough
          | some found =>
              have hhead : guard.isPrefixOf written.1 = guard.isPrefixOf found.1 := by
                simp only [hnew, hold, Option.map_some, Option.some.injEq, Prod.mk.injEq] at hthrough
                exact hthrough.1
              rw [insertion?_of_registered guard hnew, insertion?_of_registered guard hold, hhead]

end LayerGate

end CanvasExport.Rule
