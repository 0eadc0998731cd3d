/-
Module: CanvasExport.Proofs.Text.Lines
Layer: Proofs
Purpose: A text as its lines. The cut keeps the break in front of each line, so it loses nothing; where every
  carriage return has its line feed, lines hold no line-ending character and the cut is the only one.
  Changing all breaks to CRLF is then a change of the breaks alone.
Main exports: Lines, Lines.text, Lines.ofText, Tidy, Unbroken, text_ofText, ofText_text, unbroken_ofText,
  Lines.snoc, withCrlf, withCrlf_text, ofText_lines_ending
-/
import CanvasExport.Proofs.Text.Infix
import CanvasExport.Text.Line

namespace CanvasExport

/-- Either line break ends in a line feed. -/
theorem LineEnding.exists_text_eq_append (ending : LineEnding) : ∃ early, ending.text = early ++ ['\n'] := by
  cases ending with
  | lf => exact ⟨[], rfl⟩
  | crlf => exact ⟨['\r'], rfl⟩

/-- A text cut into lines: the first line, and for each further line the break in front of it and its
    content. -/
structure Lines where
  top : Text
  below : List (LineEnding × Text)
deriving DecidableEq, Repr

namespace Lines

/-- The text of the lines below a line, breaks included. -/
def belowText : List (LineEnding × Text) → Text
  | [] => []
  | (ending, content) :: rest => ending.text ++ (content ++ belowText rest)

def text (ls : Lines) : Text :=
  ls.top ++ belowText ls.below

/-- The contents of the lines, from top to bottom. -/
def contents (ls : Lines) : List Text :=
  ls.top :: ls.below.map Prod.snd

/-- The lines with one more character at the start of the first. -/
def cons (c : Char) (ls : Lines) : Lines :=
  ⟨c :: ls.top, ls.below⟩

/-- The lines with an empty line above them. -/
def under (ending : LineEnding) (ls : Lines) : Lines :=
  ⟨[], (ending, ls.top) :: ls.below⟩

/-- The lines of a text, cut at line feeds and at carriage returns that have one. -/
def ofText : Text → Lines
  | [] => ⟨[], []⟩
  | '\n' :: rest => under .lf (ofText rest)
  | '\r' :: '\n' :: rest => under .crlf (ofText rest)
  | c :: rest => cons c (ofText rest)

@[simp] theorem belowText_nil : belowText [] = [] := rfl

@[simp] theorem belowText_cons (ending : LineEnding) (content : Text) (rest : List (LineEnding × Text)) :
    belowText ((ending, content) :: rest) = ending.text ++ (content ++ belowText rest) := rfl

theorem belowText_append (above below : List (LineEnding × Text)) :
    belowText (above ++ below) = belowText above ++ belowText below := by
  induction above with
  | nil => simp
  | cons line above ih => simp [belowText, ih]

@[simp] theorem text_cons (c : Char) (ls : Lines) : (cons c ls).text = c :: ls.text := rfl

@[simp] theorem text_under (ending : LineEnding) (ls : Lines) :
    (under ending ls).text = ending.text ++ ls.text := by
  simp [under, text]

/-- Cutting a text into lines loses nothing. -/
theorem text_ofText (t : Text) : (ofText t).text = t := by
  fun_induction ofText t with
  | case1 => rfl
  | case2 rest ih => simp [ih, LineEnding.text]
  | case3 rest ih => simp [ih, LineEnding.text]
  | case4 c rest _ _ ih => simp [ih]

end Lines

/-! ### Line contents -/

/-- A text without line-ending characters. -/
def Unbroken (t : Text) : Prop :=
  ∀ c ∈ t, endsLine (some c) = false

@[simp] theorem unbroken_nil : Unbroken [] := by
  simp [Unbroken]

@[simp] theorem unbroken_cons {c : Char} {t : Text} :
    Unbroken (c :: t) ↔ endsLine (some c) = false ∧ Unbroken t := by
  simp [Unbroken]

@[simp] theorem unbroken_append {s t : Text} : Unbroken (s ++ t) ↔ Unbroken s ∧ Unbroken t := by
  simp [Unbroken, or_imp, forall_and]

instance (t : Text) : Decidable (Unbroken t) :=
  List.decidableBAll (fun c => endsLine (some c) = false) t

/-- Whether every carriage return is followed by a line feed. -/
def Tidy : Text → Bool
  | [] => true
  | c :: rest => (c != '\r' || rest.head? == some '\n') && Tidy rest

theorem tidy_of_not_mem {t : Text} (h : '\r' ∉ t) : Tidy t = true := by
  induction t with
  | nil => rfl
  | cons c rest ih =>
      simp only [List.mem_cons, not_or] at h
      simp [Tidy, ih h.2, Ne.symm h.1]

namespace Lines

/-- Lines whose contents hold no line-ending character. -/
def Unbroken (ls : Lines) : Prop :=
  ∀ content ∈ ls.contents, CanvasExport.Unbroken content

/-- The same for the lines below a line. -/
def UnbrokenBelow (below : List (LineEnding × Text)) : Prop :=
  ∀ line ∈ below, CanvasExport.Unbroken line.2

theorem unbroken_iff {ls : Lines} :
    ls.Unbroken ↔ CanvasExport.Unbroken ls.top ∧ UnbrokenBelow ls.below := by
  simp only [Unbroken, UnbrokenBelow, contents, List.forall_mem_cons, List.forall_mem_map]

@[simp] theorem unbrokenBelow_nil : UnbrokenBelow [] := by
  simp [UnbrokenBelow]

@[simp] theorem unbrokenBelow_cons {line : LineEnding × Text} {below : List (LineEnding × Text)} :
    UnbrokenBelow (line :: below) ↔ CanvasExport.Unbroken line.2 ∧ UnbrokenBelow below := by
  simp [UnbrokenBelow]

/-- The lines of a tidy text hold no line-ending character. -/
theorem unbroken_ofText {t : Text} (h : Tidy t = true) : (ofText t).Unbroken := by
  fun_induction ofText t with
  | case1 => simp [unbroken_iff]
  | case2 rest ih =>
      simp only [Tidy, Bool.and_eq_true] at h
      simpa [unbroken_iff, under] using unbroken_iff.1 (ih h.2)
  | case3 rest ih =>
      simp only [Tidy, Bool.and_eq_true] at h
      simpa [unbroken_iff, under] using unbroken_iff.1 (ih h.2.2)
  | case4 c rest hlf hcrlf ih =>
      simp only [Tidy, Bool.and_eq_true] at h
      have hrest := unbroken_iff.1 (ih h.2)
      have hc : endsLine (some c) = false := by
        by_cases hr : c = '\r'
        · subst hr
          cases rest with
          | nil => simp at h
          | cons d rest =>
              have hd : d = '\n' := by simpa using h.1
              exact absurd hd (fun hd => hcrlf rest rfl (by rw [hd]))
        · have hn : c ≠ '\n' := fun hn => hlf hn
          simp [endsLine, hr, hn]
      exact unbroken_iff.2 ⟨by simp [cons, hc, hrest.1], hrest.2⟩

/-! ### The cut is the only one -/

theorem ofText_cons {c : Char} (h : endsLine (some c) = false) (t : Text) :
    ofText (c :: t) = cons c (ofText t) := by
  have hlf : c ≠ '\n' := by
    rintro rfl
    simp [endsLine] at h
  have hcr : c ≠ '\r' := by
    rintro rfl
    simp [endsLine] at h
  rw [ofText.eq_4]
  · exact hlf
  · intro _ hc
    exact absurd hc hcr

theorem ofText_ending (ending : LineEnding) (t : Text) :
    ofText (ending.text ++ t) = under ending (ofText t) := by
  cases ending <;> rfl

theorem ofText_append {content : Text} (h : CanvasExport.Unbroken content) (t : Text) :
    ofText (content ++ t) = ⟨content ++ (ofText t).top, (ofText t).below⟩ := by
  induction content with
  | nil => rfl
  | cons c content ih =>
      rw [unbroken_cons] at h
      rw [List.cons_append, ofText_cons h.1, ih h.2]
      rfl

theorem ofText_belowText {below : List (LineEnding × Text)} (h : UnbrokenBelow below) :
    ofText (belowText below) = ⟨[], below⟩ := by
  induction below with
  | nil => rfl
  | cons line below ih =>
      obtain ⟨ending, content⟩ := line
      rw [unbrokenBelow_cons] at h
      rw [belowText_cons, ofText_ending, ofText_append h.1, ih h.2]
      simp [under]

/-- Lines without line-ending characters are the lines of their text. -/
theorem ofText_text {ls : Lines} (h : ls.Unbroken) : ofText ls.text = ls := by
  rw [unbroken_iff] at h
  rw [text, ofText_append h.1, ofText_belowText h.2]
  simp

/-! ### Tidy texts -/

theorem tidy_append {content : Text} (h : CanvasExport.Unbroken content) (t : Text) :
    Tidy (content ++ t) = Tidy t := by
  induction content with
  | nil => rfl
  | cons c content ih =>
      rw [unbroken_cons] at h
      have hcr : c ≠ '\r' := by
        rintro rfl
        simp [endsLine] at h
      simp [Tidy, hcr, ih h.2]

theorem tidy_belowText {below : List (LineEnding × Text)} (h : UnbrokenBelow below) :
    Tidy (belowText below) = true := by
  induction below with
  | nil => rfl
  | cons line below ih =>
      obtain ⟨ending, content⟩ := line
      rw [unbrokenBelow_cons] at h
      have hcontent : Tidy (content ++ belowText below) = true := by
        rw [tidy_append h.1, ih h.2]
      cases ending with
      | lf => simpa [LineEnding.text, Tidy] using hcontent
      | crlf => simpa [LineEnding.text, Tidy] using hcontent

/-- The text of lines without line-ending characters is tidy. -/
theorem tidy_text {ls : Lines} (h : ls.Unbroken) : Tidy ls.text = true := by
  rw [unbroken_iff] at h
  rw [text, tidy_append h.1, tidy_belowText h.2]

/-! ### One more line -/

/-- The lines with one more line at the end. -/
def snoc (ls : Lines) (ending : LineEnding) (content : Text) : Lines :=
  ⟨ls.top, ls.below ++ [(ending, content)]⟩

theorem text_snoc (ls : Lines) (ending : LineEnding) (content : Text) :
    (ls.snoc ending content).text = ls.text ++ (ending.text ++ content) := by
  simp [snoc, text, belowText_append]

@[simp] theorem contents_snoc (ls : Lines) (ending : LineEnding) (content : Text) :
    (ls.snoc ending content).contents = ls.contents ++ [content] := by
  simp [snoc, contents]

theorem unbroken_snoc {ls : Lines} {content : Text} (ending : LineEnding) :
    (ls.snoc ending content).Unbroken ↔ ls.Unbroken ∧ CanvasExport.Unbroken content := by
  simp [Unbroken, or_imp, forall_and]

/-! ### All breaks of one kind -/

/-- The lines with every break changed to the given one. -/
def withEnding (ending : LineEnding) (ls : Lines) : Lines :=
  ⟨ls.top, ls.below.map fun line => (ending, line.2)⟩

@[simp] theorem contents_withEnding (ending : LineEnding) (ls : Lines) :
    (ls.withEnding ending).contents = ls.contents := by
  simp [withEnding, contents]

theorem unbroken_withEnding {ls : Lines} (ending : LineEnding) :
    (ls.withEnding ending).Unbroken ↔ ls.Unbroken := by
  simp [Unbroken]

@[simp] theorem withEnding_withEnding (ending other : LineEnding) (ls : Lines) :
    (ls.withEnding other).withEnding ending = ls.withEnding ending := by
  simp [withEnding]

/-- A text without carriage returns breaks its lines by line feeds. -/
theorem withEnding_ofText {t : Text} (h : '\r' ∉ t) : (ofText t).withEnding .lf = ofText t := by
  fun_induction ofText t with
  | case1 => rfl
  | case2 rest ih =>
      have hrest := ih (fun hmem => h (List.mem_cons_of_mem _ hmem))
      simp only [withEnding, under, List.map_cons, Lines.mk.injEq, true_and, List.cons.injEq]
      exact congrArg below hrest
  | case3 rest ih => simp at h
  | case4 c rest _ _ ih =>
      have hrest := ih (fun hmem => h (List.mem_cons_of_mem _ hmem))
      simp only [withEnding, cons, Lines.mk.injEq, true_and]
      exact congrArg below hrest

end Lines

/-- The text with each line feed replaced by a carriage return and a line feed. -/
def withCrlf (t : Text) : Text :=
  t.flatMap fun c => if c = '\n' then LineEnding.crlf.text else [c]

@[simp] theorem withCrlf_append (s t : Text) : withCrlf (s ++ t) = withCrlf s ++ withCrlf t := by
  simp [withCrlf]

theorem withCrlf_of_unbroken {t : Text} (h : Unbroken t) : withCrlf t = t := by
  induction t with
  | nil => rfl
  | cons c t ih =>
      rw [unbroken_cons] at h
      have hlf : c ≠ '\n' := by
        rintro rfl
        simp [endsLine] at h
      have hrest : List.flatMap (fun c => if c = '\n' then LineEnding.crlf.text else [c]) t = t := ih h.2
      simp [withCrlf, hlf, hrest]

/-- Changing every line feed to CRLF changes the breaks and leaves the contents. -/
theorem withCrlf_text {ls : Lines} (h : ls.Unbroken) :
    withCrlf (ls.withEnding .lf).text = (ls.withEnding .crlf).text := by
  obtain ⟨top, below⟩ := ls
  rw [Lines.unbroken_iff] at h
  have hbelow : ∀ below : List (LineEnding × Text), Lines.UnbrokenBelow below →
      withCrlf (Lines.belowText (below.map fun line => (.lf, line.2)))
        = Lines.belowText (below.map fun line => (.crlf, line.2)) := by
    intro below hunbroken
    induction below with
    | nil => rfl
    | cons line below ih =>
        rw [Lines.unbrokenBelow_cons] at hunbroken
        rw [List.map_cons, List.map_cons, Lines.belowText_cons, Lines.belowText_cons, withCrlf_append,
          withCrlf_append, withCrlf_of_unbroken hunbroken.1, ih hunbroken.2]
        rfl
  simp [Lines.text, Lines.withEnding, withCrlf_of_unbroken h.1, hbelow below h.2]

/-! ### The kind of line breaks -/

namespace Lines

/-- The ending that the breaks of the lines call for. -/
def ending (ls : Lines) : LineEnding :=
  if ls.below.any (fun line => line.1 == .crlf) then .crlf else .lf

theorem crlf_isInfix_belowText {below : List (LineEnding × Text)} (h : UnbrokenBelow below) :
    LineEnding.crlf.text <:+: belowText below ↔ ∃ line ∈ below, line.1 = .crlf := by
  constructor
  · intro hoccurs
    have hcr : '\r' ∈ belowText below := hoccurs.subset (by decide)
    clear hoccurs
    induction below with
    | nil => simp at hcr
    | cons line below ih =>
        obtain ⟨ending, content⟩ := line
        rw [unbrokenBelow_cons] at h
        cases ending with
        | crlf => exact ⟨_, List.mem_cons_self, rfl⟩
        | lf =>
            have hcontent : '\r' ∉ content := fun hmem => absurd (h.1 _ hmem) (by decide)
            have hrest : '\r' ∈ belowText below := by
              simpa [LineEnding.text, hcontent] using hcr
            obtain ⟨line, hmem, hline⟩ := ih h.2 hrest
            exact ⟨line, List.mem_cons_of_mem _ hmem, hline⟩
  · rintro ⟨⟨ending, content⟩, hmem, rfl⟩
    obtain ⟨before, after, rfl⟩ := List.append_of_mem hmem
    exact ⟨belowText before, content ++ belowText after, by simp [belowText_append]⟩

/-- A text of lines is a CRLF text if one of its breaks is. -/
theorem ofText_lines_ending {ls : Lines} (h : ls.Unbroken) : LineEnding.ofText ls.text = ls.ending := by
  rw [unbroken_iff] at h
  have hskip : LineEnding.crlf.text <:+: ls.text ↔ LineEnding.crlf.text <:+: belowText ls.below := by
    rw [text]
    constructor
    · intro hoccurs
      rcases infix_append_cases hoccurs with htop | hbelow | ⟨early, late, heq, hearly, hlate, htop, _⟩
      · exact absurd (h.1 _ (htop.subset (show '\r' ∈ LineEnding.crlf.text by decide))) (by decide)
      · exact hbelow
      · obtain ⟨c, early, rfl⟩ := List.exists_cons_of_ne_nil hearly
        obtain rfl : '\r' = c := by simpa [LineEnding.text] using congrArg List.head? heq
        exact absurd (h.1 _ (htop.subset List.mem_cons_self)) (by decide)
    · exact fun hoccurs => hoccurs.trans (List.suffix_append _ _).isInfix
  have hany : ls.below.any (fun line => line.1 == .crlf) = true ↔ ∃ line ∈ ls.below, line.1 = .crlf := by
    simp
  have hoccurs : Text.occursIn ['\r', '\n'] ls.text = ls.below.any (fun line => line.1 == .crlf) := by
    rw [Bool.eq_iff_iff, Text.occursIn_iff, hany, ← crlf_isInfix_belowText h.2, ← hskip]
    rfl
  rw [LineEnding.ofText, hoccurs, ending]

end Lines

end CanvasExport
