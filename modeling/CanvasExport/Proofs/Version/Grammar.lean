/-
Module: CanvasExport.Proofs.Version.Grammar
Layer: Proofs
Purpose: The written form of a version, and that reading accepts exactly the written forms of well-formed
  versions: numbers below 2 ^ 64 without a needless zero, identifiers of letters, digits and hyphens that are not
  empty, numeric identifiers of a pre-release without a needless zero, and nothing before or after.
Main exports: Version.text, Version.WellFormed, Version.parse?_eq_some_iff
-/
import CanvasExport.Proofs.Text.Numeral
import CanvasExport.Version.Parser

namespace CanvasExport.Version

/-! ### The written form -/

/-- Identifiers with points between them, behind the character that introduces them. -/
def sectionText (intro : Char) : List Text → Text
  | [] => []
  | identifier :: rest => intro :: Text.joinWith ['.'] (identifier :: rest)

/-- A version as it is written. -/
def text (v : Version) : Text :=
  Text.numeral v.major ++ '.' :: (Text.numeral v.minor ++ '.' :: (Text.numeral v.patch
    ++ (sectionText '-' v.pre ++ sectionText '+' v.build)))

/-- A word of letters, digits and hyphens. -/
def IsIdentifier (identifier : Text) : Prop :=
  identifier ≠ [] ∧ WrittenIn isIdentifierChar identifier

/-- What a version that can be written holds. -/
structure WellFormed (v : Version) : Prop where
  major : v.major < 2 ^ 64
  minor : v.minor < 2 ^ 64
  patch : v.patch < 2 ^ 64
  pre : ∀ identifier ∈ v.pre,
    IsIdentifier identifier ∧ (isNumeric identifier = true → Text.NoNeedlessZero identifier)
  build : ∀ identifier ∈ v.build, IsIdentifier identifier

/-! ### Numbers -/

theorem parseNumber?_eq_some_iff {t rest : Text} {n : Nat} :
    parseNumber? t = some (n, rest) ↔ n < 2 ^ 64 ∧ t = Text.numeral n ++ rest ∧ Ends Char.isDigit rest := by
  constructor
  · intro h
    simp only [parseNumber?] at h
    have hsplit := @List.takeWhile_append_dropWhile _ Char.isDigit t
    have hdigits : WrittenIn Char.isDigit (t.takeWhile Char.isDigit) := writtenIn_takeWhile t
    have hends : Ends Char.isDigit (t.dropWhile Char.isDigit) := ends_dropWhile t
    rw [drop_takeWhile_length] at h
    split at h
    · contradiction
    · contradiction
    · rename_i hne hzero
      split at h
      · rename_i hfit
        obtain ⟨rfl, rfl⟩ := Prod.mk.inj (Option.some.inj h)
        have hneedless : Text.NoNeedlessZero (t.takeWhile Char.isDigit) := by
          intro hhead
          cases hrun : t.takeWhile Char.isDigit with
          | nil => exact absurd hrun hne
          | cons c digits =>
              obtain rfl : c = '0' := by simpa [hrun] using hhead
              cases digits with
              | nil => rfl
              | cons d digits => exact absurd hrun (hzero d digits)
        refine ⟨by omega, ?_, hends⟩
        rw [Text.numeral_digitsValue hdigits hne hneedless, hsplit]
      · contradiction
  · rintro ⟨hfit, rfl, hends⟩
    have hrun := takeWhile_append_of_ends (writtenIn_numeral n) hends
    simp only [parseNumber?, hrun, Text.digitsValue_numeral, List.drop_left]
    have hle : n ≤ 0xFFFFFFFFFFFFFFFF := by omega
    split
    · rename_i hnil
      exact absurd hnil (Text.numeral_ne_nil n)
    · rename_i c digits hzero
      have hneedless := Text.noNeedlessZero_numeral n (by rw [hzero]; rfl)
      rw [hzero] at hneedless
      exact absurd hneedless (by simp)
    · exact if_pos hle

/-! ### Identifiers -/

/-- The characters of identifiers and of the points between them. -/
def sectionChar (c : Char) : Bool :=
  isIdentifierChar c || c == '.'

theorem splitPoints_ne_nil (t : Text) : splitPoints t ≠ [] := by
  cases t with
  | nil => simp [splitPoints]
  | cons c t =>
      rw [splitPoints]
      split
      · simp
      · split <;> simp

theorem splitPoints_cons {c : Char} {t first : Text} {more : List Text} (h : splitPoints t = first :: more) :
    splitPoints (c :: t) = if c = '.' then [] :: first :: more else (c :: first) :: more := by
  simp only [splitPoints, h]

/-- Taking a text apart at its points loses nothing but the points. -/
theorem joinWith_splitPoints (t : Text) : Text.joinWith ['.'] (splitPoints t) = t := by
  induction t with
  | nil => rfl
  | cons c t ih =>
      obtain ⟨first, more, hsplit⟩ := List.exists_cons_of_ne_nil (splitPoints_ne_nil t)
      rw [splitPoints_cons hsplit]
      rw [hsplit] at ih
      by_cases hc : c = '.'
      · subst hc
        rw [if_pos rfl, ← ih]
        rfl
      · rw [if_neg hc]
        cases more with
        | nil => simpa [Text.joinWith] using ih
        | cons second more => simpa [Text.joinWith, List.intercalate] using ih

/-- Texts without points are what their joined text is taken apart into. -/
theorem splitPoints_joinWith {first : Text} {more : List Text} (h : ∀ part ∈ first :: more, '.' ∉ part) :
    splitPoints (Text.joinWith ['.'] (first :: more)) = first :: more := by
  -- A part is put back in front of a text that starts with a point or is empty, character by character.
  have hblock : ∀ (part below : Text) (parts : List Text), '.' ∉ part → splitPoints below = [] :: parts →
      splitPoints (part ++ below) = part :: parts := by
    intro part below parts hpart hbelow
    induction part with
    | nil => exact hbelow
    | cons c part ih =>
        simp only [List.mem_cons, not_or] at hpart
        rw [List.cons_append, splitPoints_cons (ih hpart.2), if_neg (Ne.symm hpart.1)]
  induction more generalizing first with
  | nil =>
      have hwhole := hblock first [] [] (h first List.mem_cons_self) rfl
      simpa [Text.joinWith] using hwhole
  | cons second more ih =>
      have hrest := ih fun part hmem => h part (List.mem_cons_of_mem _ hmem)
      have hpoint : splitPoints ('.' :: Text.joinWith ['.'] (second :: more)) = [] :: second :: more := by
        rw [splitPoints_cons hrest, if_pos rfl]
      have hjoin : Text.joinWith ['.'] (first :: second :: more)
          = first ++ '.' :: Text.joinWith ['.'] (second :: more) := by
        simp [Text.joinWith, List.intercalate]
      rw [hjoin]
      exact hblock first _ _ (h first List.mem_cons_self) hpoint

theorem IsIdentifier.point_not_mem {identifier : Text} (h : IsIdentifier identifier) : '.' ∉ identifier :=
  h.2.not_mem (by decide)

theorem writtenIn_joinWith {identifiers : List Text} (h : ∀ identifier ∈ identifiers, IsIdentifier identifier) :
    WrittenIn sectionChar (Text.joinWith ['.'] identifiers) := by
  have hpart : ∀ identifier ∈ identifiers, WrittenIn sectionChar identifier :=
    fun identifier hmem => (h identifier hmem).2.mono fun c hc => by simp [sectionChar, hc]
  clear h
  induction identifiers with
  | nil => exact .nil
  | cons first more ih =>
      have hfirst := hpart first List.mem_cons_self
      have hmore := ih fun identifier hmem => hpart identifier (List.mem_cons_of_mem _ hmem)
      cases more with
      | nil => simpa [Text.joinWith] using hfirst
      | cons second more =>
          have hpoint : WrittenIn sectionChar ['.'] := by decide
          simpa [Text.joinWith, List.intercalate] using (hfirst.append hpoint).append hmore

/-- The parts of a text hold its characters other than points. -/
theorem mem_of_mem_splitPoints {t part : Text} {c : Char} (hpart : part ∈ splitPoints t) (hc : c ∈ part) :
    c ∈ t ∧ c ≠ '.' := by
  induction t generalizing part with
  | nil =>
      obtain rfl : part = [] := by simpa [splitPoints] using hpart
      contradiction
  | cons d t ih =>
      obtain ⟨first, more, hsplit⟩ := List.exists_cons_of_ne_nil (splitPoints_ne_nil t)
      rw [splitPoints_cons hsplit] at hpart
      have hbelow : ∀ part ∈ first :: more, c ∈ part → c ∈ d :: t ∧ c ≠ '.' := by
        intro part hmem hc
        have hrest := ih (hsplit ▸ hmem) hc
        exact ⟨List.mem_cons_of_mem _ hrest.1, hrest.2⟩
      split at hpart
      · rcases List.mem_cons.1 hpart with rfl | hpart
        · contradiction
        · exact hbelow part hpart hc
      · rename_i hd
        rcases List.mem_cons.1 hpart with rfl | hpart
        · rcases List.mem_cons.1 hc with rfl | hc
          · exact ⟨List.mem_cons_self, hd⟩
          · exact hbelow first List.mem_cons_self hc
        · exact hbelow part (List.mem_cons_of_mem _ hpart) hc

theorem isIdentifierChar_of_sectionChar {c : Char} (h : sectionChar c = true) (hne : c ≠ '.') :
    isIdentifierChar c = true := by
  simpa [sectionChar, hne] using h

theorem parseIdentifiers?_eq_some_iff {valid : Text → Bool} {t rest : Text} {identifiers : List Text} :
    parseIdentifiers? valid t = some (identifiers, rest) ↔
      identifiers ≠ [] ∧ (∀ identifier ∈ identifiers, IsIdentifier identifier ∧ valid identifier = true) ∧
        t = Text.joinWith ['.'] identifiers ++ rest ∧ Ends sectionChar rest := by
  have hparse : parseIdentifiers? valid t
      = if (splitPoints (t.takeWhile sectionChar)).all (fun identifier => !identifier.isEmpty && valid identifier)
        then some (splitPoints (t.takeWhile sectionChar), t.dropWhile sectionChar) else none := by
    rw [← drop_takeWhile_length]
    rfl
  rw [hparse]
  constructor
  · intro h
    split at h
    · rename_i hall
      obtain ⟨rfl, rfl⟩ := Prod.mk.inj (Option.some.inj h)
      have hrun : WrittenIn sectionChar (t.takeWhile sectionChar) := writtenIn_takeWhile t
      refine ⟨splitPoints_ne_nil _, fun identifier hmem => ?_, ?_, ends_dropWhile t⟩
      · have hchecked := List.all_eq_true.1 hall identifier hmem
        simp only [Bool.and_eq_true, Bool.not_eq_true', List.isEmpty_eq_false_iff] at hchecked
        refine ⟨⟨hchecked.1, fun c hc => ?_⟩, hchecked.2⟩
        have hplace := mem_of_mem_splitPoints hmem hc
        exact isIdentifierChar_of_sectionChar (hrun c hplace.1) hplace.2
      · rw [joinWith_splitPoints, List.takeWhile_append_dropWhile]
    · contradiction
  · rintro ⟨hne, hvalid, rfl, hends⟩
    have hwritten := writtenIn_joinWith fun identifier hmem => (hvalid identifier hmem).1
    have hrun := takeWhile_append_of_ends hwritten hends
    obtain ⟨first, more, rfl⟩ := List.exists_cons_of_ne_nil hne
    rw [← drop_takeWhile_length, hrun, List.drop_left,
      splitPoints_joinWith fun part hmem => (hvalid part hmem).1.point_not_mem]
    refine if_pos (List.all_eq_true.2 fun identifier hmem => ?_)
    have hchecked := hvalid identifier hmem
    simp [hchecked.1.1, hchecked.2]

/-! ### Sections -/

/-- What may stand behind a section: nothing that would belong to it. -/
def EndsSection (intro : Char) (identifiers : List Text) (rest : Text) : Prop :=
  if identifiers = [] then rest.head? ≠ some intro else Ends sectionChar rest

theorem parseSection?_eq_some_iff {intro : Char} {valid : Text → Bool} {t rest : Text} {identifiers : List Text} :
    parseSection? intro valid t = some (identifiers, rest) ↔
      (∀ identifier ∈ identifiers, IsIdentifier identifier ∧ valid identifier = true) ∧
        t = sectionText intro identifiers ++ rest ∧ EndsSection intro identifiers rest := by
  cases t with
  | nil =>
      cases identifiers with
      | nil =>
          simp only [parseSection?, sectionText, EndsSection, List.nil_append]
          constructor
          · rintro ⟨rfl, rfl⟩
            simp
          · rintro ⟨-, rfl, -⟩
            rfl
      | cons first more => simp [parseSection?, sectionText]
  | cons c t =>
      by_cases hc : c = intro
      · subst hc
        rw [parseSection?, if_pos rfl, parseIdentifiers?_eq_some_iff]
        cases identifiers with
        | nil =>
            simp only [sectionText, EndsSection, List.nil_append, ne_eq, not_true, false_and, if_true, false_iff]
            rintro ⟨-, rfl, hends⟩
            exact hends rfl
        | cons first more => simp [sectionText, EndsSection]
      · rw [parseSection?, if_neg hc]
        cases identifiers with
        | nil =>
            simp only [sectionText, EndsSection, List.nil_append, Option.some.injEq, Prod.mk.injEq, true_and, if_true]
            constructor
            · rintro rfl
              simp [hc]
            · rintro ⟨-, rfl, -⟩
              rfl
        | cons first more => simp [sectionText, hc]

/-! ### Versions -/

theorem parsePoint?_eq_some_iff {t rest : Text} : parsePoint? t = some rest ↔ t = '.' :: rest := by
  cases t with
  | nil => simp [parsePoint?]
  | cons c t =>
      by_cases hc : c = '.'
      · subst hc
        simp [parsePoint?]
      · simp [parsePoint?, hc]

theorem isPreIdentifier_iff {identifier : Text} :
    isPreIdentifier identifier = true ↔ (isNumeric identifier = true → Text.NoNeedlessZero identifier) := by
  unfold isPreIdentifier Text.NoNeedlessZero
  split
  · simp
  · rename_i hzero
    cases identifier with
    | nil => simp
    | cons c rest =>
        cases rest with
        | nil => simp
        | cons d rest =>
            have hc : c ≠ '0' := fun heq => hzero d rest (by rw [heq])
            simp [hc]

/-- No number and no section goes on where build metadata starts. -/
theorem ends_buildText {alphabet : Char → Bool} (h : alphabet '+' = false) (build : List Text) :
    Ends alphabet (sectionText '+' build) := by
  cases build <;> simp [sectionText, h]

/-- No number goes on where a pre-release or build metadata starts. -/
theorem ends_sections (pre build : List Text) :
    Ends Char.isDigit (sectionText '-' pre ++ sectionText '+' build) := by
  cases pre with
  | nil => exact ends_buildText (by decide) build
  | cons first more => exact ends_cons.2 (by decide)

theorem endsSection_buildText (pre build : List Text) : EndsSection '-' pre (sectionText '+' build) := by
  unfold EndsSection
  split
  · cases build <;> simp [sectionText]
  · exact ends_buildText (by decide) build

theorem endsSection_nil (intro : Char) (identifiers : List Text) : EndsSection intro identifiers [] := by
  unfold EndsSection
  split <;> simp

/-- Reading accepts exactly the written forms of well-formed versions. -/
theorem parse?_eq_some_iff {t : Text} {v : Version} : parse? t = some v ↔ v.WellFormed ∧ t = v.text := by
  constructor
  · intro h
    simp only [parse?, Option.bind_eq_bind, Option.bind_eq_some_iff, Prod.exists] at h
    obtain ⟨major, _, hmajor, _, hfirst, minor, _, hminor, _, hsecond, patch, _, hpatch, pre, _, hpre, build, rest,
      hbuild, h⟩ := h
    rw [parseNumber?_eq_some_iff] at hmajor hminor hpatch
    rw [parsePoint?_eq_some_iff] at hfirst hsecond
    rw [parseSection?_eq_some_iff] at hpre hbuild
    split at h
    · rename_i hrest
      obtain rfl := List.isEmpty_iff.1 hrest
      obtain rfl := Option.some.inj h
      refine ⟨⟨hmajor.1, hminor.1, hpatch.1, fun identifier hmem => ?_, fun identifier hmem => ?_⟩, ?_⟩
      · exact ⟨(hpre.1 identifier hmem).1, isPreIdentifier_iff.1 (hpre.1 identifier hmem).2⟩
      · exact (hbuild.1 identifier hmem).1
      · rw [hmajor.2.1, hfirst, hminor.2.1, hsecond, hpatch.2.1, hpre.2.1, hbuild.2.1, List.append_nil]
        rfl
    · contradiction
  · rintro ⟨hv, rfl⟩
    have hpoint : ∀ below : Text, Ends Char.isDigit ('.' :: below) := fun below => ends_cons.2 (by decide)
    have hnumber : ∀ (n : Nat) (below : Text), n < 2 ^ 64 → Ends Char.isDigit below →
        parseNumber? (Text.numeral n ++ below) = some (n, below) :=
      fun n below hn hbelow => parseNumber?_eq_some_iff.2 ⟨hn, rfl, hbelow⟩
    have hpre := parseSection?_eq_some_iff.2 ⟨fun identifier hmem =>
      ⟨(hv.pre identifier hmem).1, isPreIdentifier_iff.2 (hv.pre identifier hmem).2⟩, rfl,
      endsSection_buildText v.pre v.build⟩
    have hbuild := (@parseSection?_eq_some_iff '+' (fun _ => true) _ [] v.build).2
      ⟨fun identifier hmem => ⟨hv.build identifier hmem, rfl⟩, (List.append_nil _).symm, endsSection_nil _ _⟩
    simp only [parse?, text, Option.bind_eq_bind, Option.bind_eq_some_iff, Prod.exists]
    exact ⟨v.major, _, hnumber _ _ hv.major (hpoint _), _, rfl,
      v.minor, _, hnumber _ _ hv.minor (hpoint _), _, rfl,
      v.patch, _, hnumber _ _ hv.patch (ends_sections v.pre v.build),
      v.pre, _, hpre, v.build, [], hbuild, rfl⟩

end CanvasExport.Version
