/-
Module: CanvasExport.Proofs.Rule.Bitmap
Layer: Proofs
Purpose: Remapping bitmaps. A reference keeps its quote and its last slash; between them stand only words, so
  whatever else a rule looks for in a line is found in the remapped line at the same places.
Main exports: remapped, remapBitmaps_inline, not_infix_remapped, remapped_of_clear, view_remapped
-/
import CanvasExport.Options.Basic
import CanvasExport.Proofs.Rule.Fill
import CanvasExport.Rule.Bitmap

namespace CanvasExport.Rule

/-- The text with its bitmaps served from where the variant keeps them. -/
def remapped (variant : Variant) (t : Text) : Text :=
  ((remapBitmaps variant.cacheDirectory).script t).result

/-! ### The words of bitmap paths -/

def imageWord : Text := "images".toList

def assetWord : Text := "assets".toList

/-- The name of the variant's cache. -/
def cacheWord : Variant → Text
  | .aliased => "cached".toList
  | .indexed => "cache".toList

theorem bitmapOpening_eq : bitmapOpening = '"' :: (imageWord ++ ['/']) := by
  decide

theorem cacheDirectory_eq (variant : Variant) :
    variant.cacheDirectory = assetWord ++ '/' :: (cacheWord variant ++ ['/']) := by
  cases variant <;> decide

theorem writtenIn_imageWord : WrittenIn identifierChar imageWord := by
  decide

theorem writtenIn_assetWord : WrittenIn identifierChar assetWord := by
  decide

theorem writtenIn_cacheWord (variant : Variant) : WrittenIn identifierChar (cacheWord variant) := by
  cases variant <;> decide

theorem bitmapOpening_ne_nil : bitmapOpening ≠ [] := by
  decide

theorem unbroken_bitmapOpening : Unbroken bitmapOpening := by
  decide

theorem unbroken_cacheDirectory (variant : Variant) : Unbroken ('"' :: variant.cacheDirectory) := by
  cases variant <;> decide

theorem remapBitmaps_inline (variant : Variant) : (remapBitmaps variant.cacheDirectory).Inline :=
  Recognizer.literal_inline _ bitmapOpening_ne_nil unbroken_bitmapOpening

/-! ### What remapping leaves -/

/-- No reference is left that a further pass would remap. -/
theorem not_infix_remapped (variant : Variant) (t : Text) : ¬ bitmapOpening <:+: remapped variant t := by
  have hinline := remapBitmaps_inline variant
  have hwrites : ∀ t s, remapBitmaps variant.cacheDirectory none t = some s →
      s = [.swap bitmapOpening ('"' :: variant.cacheDirectory)] := by
    intro t s hs
    rw [remapBitmaps, Recognizer.literal_eq] at hs
    split at hs
    · exact (Option.some.inj hs).symm
    · contradiction
  refine Recognizer.script_induction hinline.faithful hinline.contextFree
    (motive := fun _ s => ¬ bitmapOpening <:+: s.result) (fun hoccurs => ?_) (fun c rest hnone hrest hoccurs => ?_)
    (fun s rest _ hs hrest hoccurs => ?_) t
  · exact bitmapOpening_ne_nil (List.infix_nil.1 hoccurs)
  · rw [Script.result_cons, Edit.result, List.singleton_append, List.infix_cons_iff] at hoccurs
    refine hoccurs.elim (fun hhead => ?_) hrest
    -- Its quote is kept, and the rest of the opening has none, so it was there before.
    have hquote : '"' ∉ imageWord ++ ['/'] := by
      have hword : '"' ∉ imageWord := writtenIn_imageWord.not_mem rfl
      simp [hword]
    rw [bitmapOpening_eq, List.cons_prefix_cons] at hhead
    have hbefore : bitmapOpening <+: c :: rest := by
      rw [bitmapOpening_eq, List.cons_prefix_cons]
      refine ⟨hhead.1, Recognizer.prefix_of_prefix_result hinline.faithful hinline.contextFree (fun t s hs => ?_)
        hquote rest hhead.2⟩
      rw [hwrites t s hs]
      exact ⟨_, rfl⟩
    rw [remapBitmaps, Recognizer.literal_eq, if_pos hbefore] at hnone
    contradiction
  · obtain rfl := hwrites _ s hs
    have hdirectory : '"' ∉ variant.cacheDirectory := by cases variant <;> decide
    have hhead : ¬ imageWord ++ ['/'] <+: variant.cacheDirectory
        ++ Script.result ((remapBitmaps variant.cacheDirectory).script rest) := by
      have hi : imageWord = 'i' :: "mages".toList := by decide
      have ha : variant.cacheDirectory = 'a' :: variant.cacheDirectory.tail := by cases variant <;> decide
      rw [hi, ha, List.cons_append, List.cons_append, List.cons_prefix_cons]
      exact fun hhead => absurd hhead.1 (by decide)
    have hoccurs : bitmapOpening <:+: '"' :: (variant.cacheDirectory
        ++ Script.result ((remapBitmaps variant.cacheDirectory).script rest)) := by
      simpa [Edit.result] using hoccurs
    rw [bitmapOpening_eq, List.infix_cons_iff, List.cons_prefix_cons, infix_append_iff_of_first hdirectory,
      ← bitmapOpening_eq] at hoccurs
    exact hoccurs.elim (fun hstart => hhead hstart.2) hrest

theorem remapped_of_clear (variant : Variant) {t : Text} (h : ¬ bitmapOpening <:+: t) : remapped variant t = t :=
  Recognizer.result_literal_of_not_infix _ bitmapOpening_ne_nil h

/-- A text without quotes has no bitmaps. -/
theorem remapped_of_quote_not_mem (variant : Variant) {t : Text} (h : '"' ∉ t) : remapped variant t = t :=
  remapped_of_clear variant fun hoccurs => h (hoccurs.subset (by decide))

/-- A view that sees the quote and the last slash of a bitmap reference, and no words between them, is the same
    after remapping a line. -/
theorem view_remapped {β : Type} (view : Text → β) (variant : Variant)
    (h : ∀ above below, Unbroken above → Unbroken below →
      view (above ++ '"' :: (imageWord ++ '/' :: below))
        = view (above ++ '"' :: (assetWord ++ '/' :: (cacheWord variant ++ '/' :: below))))
    {t : Text} (ht : Unbroken t) : view (remapped variant t) = view t := by
  refine Recognizer.view_result_literal_line view bitmapOpening_ne_nil unbroken_bitmapOpening
    (unbroken_cacheDirectory variant) (fun above below habove hbelow => ?_) ht
  have hsame := h above below habove hbelow
  rw [bitmapOpening_eq, cacheDirectory_eq]
  simpa only [List.append_assoc, List.cons_append, List.nil_append] using hsame

theorem unbroken_remapped (variant : Variant) {t : Text} (ht : Unbroken t) : Unbroken (remapped variant t) := by
  have himage : Unbroken imageWord := writtenIn_imageWord.unbroken rfl rfl
  have hasset : Unbroken assetWord := writtenIn_assetWord.unbroken rfl rfl
  have hcache : Unbroken (cacheWord variant) := (writtenIn_cacheWord variant).unbroken rfl rfl
  have hview : Unbroken (remapped variant t) = Unbroken t := by
    refine view_remapped (fun t => Unbroken t) variant (fun above below _ _ => ?_) ht
    simp [himage, hasset, hcache, show endsLine (some '/') = false from rfl]
  exact hview ▸ ht

/-! ### Views that see no words of paths -/

/-- A needle without quotes and slashes that no word holds. -/
theorem infix_remapped_iff {needle : Text} (hquote : '"' ∉ needle) (hslash : '/' ∉ needle)
    (hword : ∀ word, WrittenIn identifierChar word → ¬ needle <:+: word) (variant : Variant) {t : Text}
    (ht : Unbroken t) : needle <:+: remapped variant t ↔ needle <:+: t := by
  have himage := hword imageWord writtenIn_imageWord
  have hasset := hword assetWord writtenIn_assetWord
  have hcache := hword (cacheWord variant) (writtenIn_cacheWord variant)
  refine iff_of_eq (view_remapped (fun t => needle <:+: t) variant (fun above below _ _ => propext ?_) ht)
  simp only [infix_append_cons_iff hquote, infix_append_cons_iff hslash, himage, hasset, hcache, false_or]

/-- Fill literals end in a parenthesis, hold no slash and are never within a word. -/
theorem literal_infix_remapped_iff {color : Text} (hcolor : WrittenIn colorChar color) (variant : Variant)
    {t : Text} (ht : Unbroken t) : fillLiteral color <:+: remapped variant t ↔ fillLiteral color <:+: t := by
  obtain ⟨front, hfront⟩ : ∃ front, fillLiteral color = front ++ [')'] := by
    have htail : fillTail = ".s(".toList ++ [')'] := by decide
    exact ⟨(fillHead ++ ['(']) ++ '"' :: (color ++ '"' :: ')' :: ".s(".toList), by
      rw [fillLiteral_eq, htail]
      simp only [List.append_assoc, List.cons_append]⟩
  have hslash : '/' ∉ fillLiteral color := by
    have hhead : '/' ∉ fillHead := writtenIn_fillHead.not_mem rfl
    have hinside : '/' ∉ color := hcolor.not_mem (by decide)
    have htail : '/' ∉ fillTail := by decide
    simp [fillLiteral_eq, hhead, hinside, htail]
  have hlast : ∀ word, WrittenIn identifierChar word → ∀ above,
      fillLiteral color <:+: above ++ '"' :: word ↔ fillLiteral color <:+: above := by
    intro word hword above
    have hclosing : ')' ∉ '"' :: word := by
      have hinside : ')' ∉ word := hword.not_mem rfl
      simp [hinside]
    rw [hfront]
    exact infix_append_iff_of_last hclosing
  have hcache : ¬ fillLiteral color <:+: cacheWord variant := by
    intro hoccurs
    have hquote : '"' ∈ fillLiteral color := by simp [fillLiteral_eq]
    exact (writtenIn_cacheWord variant).not_mem rfl (hoccurs.subset hquote)
  refine iff_of_eq (view_remapped (fun t => fillLiteral color <:+: t) variant
    (fun above below _ _ => propext ?_) ht)
  have hbefore : ∀ word rest, above ++ '"' :: (word ++ '/' :: rest) = (above ++ '"' :: word) ++ '/' :: rest := by
    simp
  rw [hbefore, hbefore, infix_append_cons_iff hslash, infix_append_cons_iff hslash, infix_append_cons_iff hslash,
    hlast _ writtenIn_imageWord, hlast _ writtenIn_assetWord]
  simp [hcache]

/-- A fixed line without quotes has no bitmap. -/
theorem remapped_eq_iff {line : Text} (hline : '"' ∉ line) (variant : Variant) {t : Text} (ht : Unbroken t) :
    remapped variant t = line ↔ t = line := by
  refine iff_of_eq (view_remapped (fun t => t = line) variant (fun above below _ _ => propext ?_) ht)
  constructor
  · rintro rfl
    simp at hline
  · rintro rfl
    simp at hline

theorem isConstructorLine_remapped (variant : Variant) {t : Text} (ht : Unbroken t) :
    isConstructorLine (remapped variant t) = isConstructorLine t := by
  have hword : ∀ word, WrittenIn identifierChar word →
      ¬ constructorOpening <:+: word ∧ ¬ isConstructorLine word = true := by
    intro word hword
    have hnone : ¬ constructorOpening <:+: word := by
      intro hoccurs
      exact hword.not_mem (c := ',') rfl (hoccurs.subset (by decide))
    exact ⟨hnone, fun h => hnone (infix_of_isConstructorLine h)⟩
  refine view_remapped isConstructorLine variant (fun above below _ _ => ?_) ht
  have hquote : '"' ∉ constructorOpening := by decide
  have hslash : '/' ∉ constructorOpening := by decide
  have himage : ')' ∉ imageWord := writtenIn_imageWord.not_mem rfl
  have hasset : ')' ∉ assetWord := writtenIn_assetWord.not_mem rfl
  have hcache : ')' ∉ cacheWord variant := (writtenIn_cacheWord variant).not_mem rfl
  rw [Bool.eq_iff_iff]
  simp only [isConstructorLine_append_cons hquote, isConstructorLine_append_cons hslash,
    hword _ writtenIn_imageWord, hword _ writtenIn_assetWord, hword _ (writtenIn_cacheWord variant)]
  simp [himage, hasset, hcache]

end CanvasExport.Rule
