/-
Module: CanvasExport.Proofs.Publish.Construction
Layer: Proofs
Purpose: Which configurations make a pipeline. The wanted engine version is read first, then it is compared with
  this engine's, then the palette's names and colors are looked at; a configuration is refused for the first of
  these that fails. What passes all three makes a pipeline whose rules write harmless texts only.
Main exports: Version.Served, IsName, IsColor, Palette.Wants, Palette.Has, Pipeline.create_classified
-/
import CanvasExport.Proofs.Publish.Run
import CanvasExport.Proofs.Rule.Insertion
import CanvasExport.Proofs.Version.Order

namespace CanvasExport

/-! ### The engine -/

/-- The versions that this engine serves: those before the first release, and that release without build
    metadata. -/
def Version.Served (v : Version) : Prop :=
  v.major = 0 ∨ (v.numbers = [1, 0, 0] ∧ v.pre ≠ []) ∨ v = ⟨1, 0, 0, [], []⟩

theorem parse?_engineVersion : Version.parse? engineVersion = some engine := by
  decide

theorem wellFormed_engine : engine.WellFormed :=
  (Version.parse?_eq_some_iff.1 parse?_engineVersion).1

theorem engine_before_iff (v : Version) : engine.Before v ↔ ¬ v.Served := by
  have hnumbers : [1, 0, 0] < v.numbers ↔ v.major ≠ 0 ∧ v.numbers ≠ [1, 0, 0] := by
    simp only [Version.numbers, List.cons_lt_cons_iff, ne_eq, List.cons.injEq]
    simp
    omega
  have hrelease : v = ⟨1, 0, 0, [], []⟩ ↔ v.numbers = [1, 0, 0] ∧ v.pre = [] ∧ v.build = [] := by
    obtain ⟨major, minor, patch, pre, build⟩ := v
    simp [Version.numbers, and_assoc]
  rw [Version.Served, hrelease]
  constructor
  · rintro (h | ⟨-, hpre, -⟩ | ⟨-, hpre, -⟩ | ⟨hsame, hpre, h⟩)
    · have hlater := hnumbers.1 h
      simp [hlater]
    · exact absurd rfl hpre
    · exact absurd rfl hpre
    · have hmajor : v.major = 1 := (List.cons.inj hsame).1.symm
      have hbuild : v.build ≠ [] := by
        intro hnil
        rw [hnil] at h
        cases h
      simp [hmajor, hbuild, ← hpre, show engine.pre = [] from rfl]
  · intro hnot
    simp only [not_or, not_and] at hnot
    obtain ⟨hmajor, hpre, hbuild⟩ := hnot
    by_cases hsame : v.numbers = [1, 0, 0]
    · have hnil : v.pre = [] := Classical.not_not.1 (hpre hsame)
      obtain ⟨first, more, hmore⟩ := List.exists_cons_of_ne_nil (hbuild hsame hnil)
      exact .build hsame.symm hnil.symm (hmore ▸ .nil)
    · exact .numbers (hnumbers.2 ⟨hmajor, hsame⟩)

/-- The palette asks for this engine version. -/
def Palette.Wants (palette : Palette) (v : Version) : Prop :=
  v.WellFormed ∧ palette.engineMinVersion = v.text

theorem parse?_engineMinVersion_iff {palette : Palette} {v : Version} :
    Version.parse? palette.engineMinVersion = some v ↔ palette.Wants v :=
  Version.parse?_eq_some_iff

theorem compare_engine_iff {v : Version} (h : v.WellFormed) : engine.compare v = .lt ↔ ¬ v.Served := by
  rw [Version.compare_eq_lt_iff wellFormed_engine h, engine_before_iff]

/-! ### Names and colors -/

/-- An ASCII letter, an underscore or a dollar sign. -/
def NameStart (c : Char) : Prop :=
  ('A' ≤ c ∧ c ≤ 'Z') ∨ ('a' ≤ c ∧ c ≤ 'z') ∨ c = '_' ∨ c = '$'

/-- An ASCII identifier. -/
def IsName (t : Text) : Prop :=
  ∃ c rest, t = c :: rest ∧ NameStart c ∧ ∀ d ∈ rest, NameStart d ∨ ('0' ≤ d ∧ d ≤ '9')

/-- A number sign and six hexadecimal digits. -/
def IsColor (t : Text) : Prop :=
  ∃ digits : Text, t = '#' :: digits ∧ digits.length = 6
    ∧ ∀ d ∈ digits, ('0' ≤ d ∧ d ≤ '9') ∨ ('A' ≤ d ∧ d ≤ 'F') ∨ ('a' ≤ d ∧ d ≤ 'f')

theorem isDigit_iff {c : Char} : c.isDigit = true ↔ '0' ≤ c ∧ c ≤ '9' := by
  delta Char.isDigit
  rw [Bool.and_eq_true, decide_eq_true_iff, decide_eq_true_iff]
  rfl

theorem isAlpha_iff {c : Char} : c.isAlpha = true ↔ ('A' ≤ c ∧ c ≤ 'Z') ∨ ('a' ≤ c ∧ c ≤ 'z') := by
  delta Char.isAlpha Char.isUpper Char.isLower
  rw [Bool.or_eq_true, decide_eq_true_iff, Bool.and_eq_true, decide_eq_true_iff, decide_eq_true_iff]
  rfl

theorem nameStart_iff {c : Char} : (c.isAlpha || c == '_' || c == '$') = true ↔ NameStart c := by
  rw [NameStart, Bool.or_eq_true, Bool.or_eq_true, isAlpha_iff, beq_iff_eq, beq_iff_eq, or_assoc, or_assoc]

theorem isIdentifier_iff {t : Text} : isIdentifier t = true ↔ IsName t := by
  cases t with
  | nil => simp [isIdentifier, IsName]
  | cons c rest =>
      simp only [isIdentifier, IsName, Bool.and_eq_true, List.all_eq_true, List.cons.injEq]
      rw [nameStart_iff]
      constructor
      · rintro ⟨hc, hrest⟩
        refine ⟨c, rest, ⟨rfl, rfl⟩, hc, fun d hd => ?_⟩
        exact ((Bool.or_eq_true _ _).mp (hrest d hd)).imp nameStart_iff.1 isDigit_iff.1
      · rintro ⟨_, _, ⟨rfl, rfl⟩, hc, hrest⟩
        refine ⟨hc, fun d hd => ?_⟩
        exact (Bool.or_eq_true _ _).mpr ((hrest d hd).imp nameStart_iff.2 isDigit_iff.2)

theorem isSome_hexValue?_iff {c : Char} :
    (Text.hexValue? c).isSome = true ↔ ('0' ≤ c ∧ c ≤ '9') ∨ ('A' ≤ c ∧ c ≤ 'F') ∨ ('a' ≤ c ∧ c ≤ 'f') := by
  unfold Text.hexValue?
  rw [← isDigit_iff]
  split
  · simp [*]
  · split
    · simp_all
    · split <;> simp_all

theorem isColorKey_iff {t : Text} : isColorKey t = true ↔ IsColor t := by
  unfold isColorKey IsColor
  split
  · rename_i digits
    simp only [Bool.and_eq_true, beq_iff_eq, List.all_eq_true, isSome_hexValue?_iff]
    constructor
    · rintro ⟨hlength, hdigits⟩
      exact ⟨digits, rfl, hlength, hdigits⟩
    · rintro ⟨_, heq, hlength, hdigits⟩
      obtain rfl := (List.cons.inj heq).2
      exact ⟨hlength, hdigits⟩
  · rename_i hshape
    simp only [Bool.false_eq_true, false_iff]
    rintro ⟨digits, heq, -⟩
    exact hshape digits heq

namespace Palette

variable {palette : Palette}

/-- The problems that a palette has. -/
inductive Has (palette : Palette) : PaletteProblem → Prop
  | global {name : Text} (hname : name = palette.paletteGlobal ∨ name = palette.paletteTable)
      (h : ¬ IsName name) : Has palette (.badGlobal name)
  | color {color slot : Text} (hentry : (color, slot) ∈ palette.colors.entries) (h : ¬ IsColor color) :
      Has palette (.badColor color)
  | slot {color slot : Text} (hentry : (color, slot) ∈ palette.colors.entries) (h : ¬ IsName slot) :
      Has palette (.badSlot slot color)

theorem mem_entryProblems_iff {entry : Text × Text} {problem : PaletteProblem} :
    problem ∈ entryProblems entry ↔
      (¬ IsColor entry.1 ∧ problem = .badColor entry.1) ∨ (¬ IsName entry.2 ∧ problem = .badSlot entry.2 entry.1) := by
  rw [entryProblems, ← isColorKey_iff, ← isIdentifier_iff]
  split <;> split <;> simp [*]

/-- The problems that are listed are those that the palette has. -/
theorem mem_problems_iff {problem : PaletteProblem} : problem ∈ palette.problems ↔ palette.Has problem := by
  rw [problems, List.mem_append, List.mem_map, List.mem_flatMap]
  constructor
  · rintro (⟨name, hname, rfl⟩ | ⟨⟨color, slot⟩, hentry, hproblem⟩)
    · obtain ⟨hmem, hbad⟩ := List.mem_filter.1 hname
      refine .global (by simpa using hmem) fun hgood => ?_
      rw [isIdentifier_iff.2 hgood] at hbad
      contradiction
    · rcases mem_entryProblems_iff.1 hproblem with ⟨hbad, rfl⟩ | ⟨hbad, rfl⟩
      · exact .color hentry hbad
      · exact .slot hentry hbad
  · rintro (⟨hname, hbad⟩ | ⟨hentry, hbad⟩ | ⟨hentry, hbad⟩)
    · refine .inl ⟨_, List.mem_filter.2 ⟨by simpa using hname, ?_⟩, rfl⟩
      rw [← isIdentifier_iff] at hbad
      simpa using hbad
    · exact .inr ⟨_, hentry, mem_entryProblems_iff.2 (.inl ⟨hbad, rfl⟩)⟩
    · exact .inr ⟨_, hentry, mem_entryProblems_iff.2 (.inr ⟨hbad, rfl⟩)⟩

theorem problems_eq_nil_iff : palette.problems = [] ↔ ∀ problem, ¬ palette.Has problem := by
  simp only [List.eq_nil_iff_forall_not_mem, mem_problems_iff]

end Palette

/-! ### Pipelines -/

namespace Pipeline

variable (palette : Palette) (options : Options)

theorem create_of_parse?_eq_none (h : Version.parse? palette.engineMinVersion = none) :
    create palette options = .error (.invalidVersion palette.engineMinVersion) := by
  simp only [create, checkEngine, h, bind, Except.bind]

theorem create_of_not_served {v : Version} (h : palette.Wants v) (hserved : ¬ v.Served) :
    create palette options = .error (.engineTooOld palette.engineMinVersion) := by
  have hparse := parse?_engineMinVersion_iff.2 h
  have hbefore := (compare_engine_iff h.1).2 hserved
  simp only [create, checkEngine, hparse, hbefore, bind, Except.bind, if_true]

theorem create_of_served {v : Version} (h : palette.Wants v) (hserved : v.Served) :
    create palette options = match palette.problems with
      | [] => .ok ⟨options, Rule.listFor palette options.variant options.remapAssetPath⟩
      | problems => .error (.invalidPalette problems) := by
  have hparse := parse?_engineMinVersion_iff.2 h
  have hbefore : ¬ engine.compare v = .lt := fun hlt => (compare_engine_iff h.1).1 hlt hserved
  simp only [create, checkEngine, hparse, hbefore, bind, Except.bind, if_false]
  rfl

/-- What becomes of a configuration, by the version that it asks for and the problems that it has. -/
inductive Classified : Except PublishError Pipeline → Prop
  | invalidVersion (h : ¬ ∃ v, palette.Wants v) : Classified (.error (.invalidVersion palette.engineMinVersion))
  | engineTooOld (h : ∃ v, palette.Wants v ∧ ¬ v.Served) :
      Classified (.error (.engineTooOld palette.engineMinVersion))
  | invalidPalette (h : ∃ v, palette.Wants v ∧ v.Served) (hproblem : ∃ problem, palette.Has problem) :
      Classified (.error (.invalidPalette palette.problems))
  | accepted (h : ∃ v, palette.Wants v ∧ v.Served) (hvalid : ∀ problem, ¬ palette.Has problem) :
      Classified (.ok ⟨options, Rule.listFor palette options.variant options.remapAssetPath⟩)

theorem classified_create : Classified palette options (create palette options) := by
  cases hparse : Version.parse? palette.engineMinVersion with
  | none =>
      rw [create_of_parse?_eq_none palette options hparse]
      refine .invalidVersion ?_
      rintro ⟨v, hv⟩
      rw [parse?_engineMinVersion_iff.2 hv] at hparse
      contradiction
  | some v =>
      have hv := parse?_engineMinVersion_iff.1 hparse
      by_cases hserved : v.Served
      · rw [create_of_served palette options hv hserved]
        split
        · rename_i hproblems
          exact .accepted ⟨v, hv, hserved⟩ (Palette.problems_eq_nil_iff.1 hproblems)
        · rename_i hproblems
          refine .invalidPalette ⟨v, hv, hserved⟩ (Classical.byContradiction fun hnone => hproblems ?_)
          exact Palette.problems_eq_nil_iff.2 (not_exists.1 hnone)
      · rw [create_of_not_served palette options hv hserved]
        exact .engineTooOld ⟨v, hv, hserved⟩

theorem create_of_problems {problem : PaletteProblem} (h : ∃ v, palette.Wants v ∧ v.Served)
    (hproblem : palette.Has problem) : create palette options = .error (.invalidPalette palette.problems) := by
  obtain ⟨v, hv, hserved⟩ := h
  rw [create_of_served palette options hv hserved]
  split
  · rename_i hnil
    exact absurd hproblem (Palette.problems_eq_nil_iff.1 hnil problem)
  · rfl

theorem create_of_valid (h : ∃ v, palette.Wants v ∧ v.Served) (hvalid : ∀ problem, ¬ palette.Has problem) :
    create palette options = .ok ⟨options, Rule.listFor palette options.variant options.remapAssetPath⟩ := by
  obtain ⟨v, hv, hserved⟩ := h
  rw [create_of_served palette options hv hserved, Palette.problems_eq_nil_iff.2 hvalid]

variable {palette options}

/-- The rules of an accepted palette write harmless texts of its own and nothing else. -/
theorem harmless_of_create {pipeline : Pipeline} (h : create palette options = .ok pipeline) {rule : Rule}
    (hrule : rule ∈ pipeline.rules) (hpalette : rule.FromPalette) {stem s : Text} (hs : rule.Inserts stem s) :
    Harmless s :=
  Rule.harmless_of_inserts (sound_of_create h rule hrule) hpalette hs

variable (palette options)

/-- Every configuration is classified: by its engine version, then by its problems; what is left makes a
    pipeline, and the texts that its rules write for the palette are harmless. -/
theorem create_classified :
    Version.parse? engineVersion = some engine
    ∧ (∀ a b : Version, a.WellFormed → b.WellFormed → (a.compare b = .lt ↔ a.Before b))
    ∧ (create palette options = .error (.invalidVersion palette.engineMinVersion) ↔ ¬ ∃ v, palette.Wants v)
    ∧ (create palette options = .error (.engineTooOld palette.engineMinVersion) ↔
        ∃ v, palette.Wants v ∧ ¬ v.Served)
    ∧ (create palette options = .error (.invalidPalette palette.problems) ↔
        (∃ v, palette.Wants v ∧ v.Served) ∧ ∃ problem, palette.Has problem)
    ∧ (∀ pipeline, create palette options = .ok pipeline ↔
        (∃ v, palette.Wants v ∧ v.Served) ∧ (∀ problem, ¬ palette.Has problem)
          ∧ pipeline = ⟨options, Rule.listFor palette options.variant options.remapAssetPath⟩)
    ∧ (∀ problem, problem ∈ palette.problems ↔ palette.Has problem)
    ∧ (PublishError.invalidVersion palette.engineMinVersion).message
        = "Invalid palette config: Invalid engineMinVersion '".toList ++ palette.engineMinVersion ++ "'".toList
    ∧ (PublishError.invalidPalette palette.problems).message
        = "Invalid palette config: ".toList
          ++ Text.joinWith "; ".toList (palette.problems.map PaletteProblem.message)
    ∧ ∀ pipeline, create palette options = .ok pipeline → ∀ rule ∈ pipeline.rules, rule.FromPalette →
        (∀ stem s, rule.Inserts stem s → Harmless s)
        ∧ ∀ context t, Script.Chain t (rule.scripts context t) (rule.apply context t).text
          ∧ ∀ script ∈ rule.scripts context t, ∀ old new, Edit.swap old new ∈ script →
            ∃ s, rule.Inserts context.stem s
              ∧ (new = s ∨ new = context.ending.text ++ s ++ context.ending.text) := by
  -- From a result to its condition by the classification, back by what each condition makes of a configuration.
  have hclass := classified_create palette options
  refine ⟨parse?_engineVersion, fun a b ha hb => Version.compare_eq_lt_iff ha hb, ⟨fun h => ?_, fun h => ?_⟩,
    ⟨fun h => ?_, ?_⟩, ⟨fun h => ?_, ?_⟩, fun pipeline => ⟨fun h => ?_, ?_⟩, fun _ => Palette.mem_problems_iff, rfl, rfl,
    fun pipeline h rule hrule hpalette => ⟨fun _ _ => harmless_of_create h hrule hpalette, fun context t =>
      ⟨rule.chain_scripts context t, fun _ hscript _ _ => Rule.inserts_of_mem_scripts hscript⟩⟩⟩
  · rw [h] at hclass
    cases hclass
    assumption
  · refine create_of_parse?_eq_none palette options (Option.eq_none_iff_forall_ne_some.2 fun v hv => h ⟨v, ?_⟩)
    exact parse?_engineMinVersion_iff.1 hv
  · rw [h] at hclass
    cases hclass
    assumption
  · rintro ⟨v, hv, hserved⟩
    exact create_of_not_served palette options hv hserved
  · rw [h] at hclass
    cases hclass
    exact ⟨‹_›, ‹_›⟩
  · rintro ⟨hserved, problem, hproblem⟩
    exact create_of_problems palette options hserved hproblem
  · rw [h] at hclass
    cases hclass
    exact ⟨‹_›, ‹_›, rfl⟩
  · rintro ⟨hserved, hvalid, rfl⟩
    exact create_of_valid palette options hserved hvalid

/-- A palette for a candidate of the first release. -/
def candidatePalette : Palette :=
  { Palette.standard with
    engineMinVersion := "1.0.0-rc.1+build.007".toList
    paletteGlobal := "$avatar_2".toList }

theorem create_classified_candidatePalette :
    create candidatePalette .standard = .ok ⟨.standard, Rule.listFor candidatePalette .aliased true⟩
      ∧ Harmless (Rule.aliasStatement "$avatar_2".toList) := by
  have hparse : Version.parse? candidatePalette.engineMinVersion
      = some ⟨1, 0, 0, ["rc".toList, "1".toList], ["build".toList, "007".toList]⟩ := by decide
  have hserved : ∃ v, candidatePalette.Wants v ∧ v.Served :=
    ⟨_, parse?_engineMinVersion_iff.1 hparse, .inr (.inl ⟨rfl, List.cons_ne_nil _ _⟩)⟩
  have hvalid := Palette.problems_eq_nil_iff.1 (show candidatePalette.problems = [] by decide)
  obtain ⟨-, -, -, -, -, haccepted, -, -, -, hwrites⟩ := create_classified candidatePalette .standard
  have hcreate := (haccepted _).2 ⟨hserved, hvalid, rfl⟩
  have halias : Rule.paletteAlias "$avatar_2".toList ∈ Rule.listFor candidatePalette .aliased true :=
    List.mem_cons_self
  exact ⟨hcreate, (hwrites _ hcreate _ halias ⟨by decide, by decide⟩).1 [] _ rfl⟩

end Pipeline

end CanvasExport
