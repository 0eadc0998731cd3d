/-
Module: CanvasExport.Proofs.File.Sibling
Layer: Proofs
Purpose: Paths by their components, and where a backup lies among them. However a path is spelled, its file name is
  its last component if that is a name; the backup path of a script whose path is text goes through the same parents
  to a name that only this script is backed up under, and never to the script.
Main exports: Path.Component, Path.components, Path.fileName?_eq_some_iff, Path.components_join,
  Path.backup_distinctSibling
-/
import CanvasExport.Proofs.File.Tree

namespace CanvasExport

namespace Path

open FileTree

open Text (IsUtf8)

/-! ### Components -/

/-- What a path goes through, one after the other. -/
inductive Component where
  /-- The root of all paths. -/
  | root
  /-- The directory that the path starts in, if that is written out. -/
  | current
  /-- The directory above. -/
  | parent
  | name (name : Bytes)
deriving DecidableEq, Repr

/-- What a part between slashes leads through: one point leads nowhere else. -/
def Component.ofPart? (part : Bytes) : Option Component :=
  if part = [point] then none else if part = [point, point] then some .parent else some (.name part)

/-- What a path starts at: the root, or the directory of a relative path that begins with a point. -/
def lead (p : Path) : List Component :=
  if p.head? = some slash then [.root]
  else if (namesOf p).head? = some [point] then [.current]
  else []

/-- The components of a path. Empty parts and single points between slashes make none, but for the point that a
    relative path begins with. -/
def components (p : Path) : List Component :=
  p.lead ++ (namesOf p).filterMap Component.ofPart?

theorem filterMap_points (n : Nat) : (List.replicate n [point]).filterMap Component.ofPart? = [] := by
  simp [Component.ofPart?]

theorem ofPart?_eq_name {part : Bytes} (hpoint : part ≠ [point]) (hpoints : part ≠ [point, point]) :
    Component.ofPart? part = some (.name part) := by
  rw [Component.ofPart?, if_neg hpoint, if_neg hpoints]

/-! ### The last part of a path -/

/-- Only where a name ends the first part is empty. -/
theorem nameEnds_of_takeWhile {t : Bytes} (h : t.takeWhile (· != slash) = []) : nameEnds t = true := by
  cases t with
  | nil => rfl
  | cons b rest =>
      refine nameEnds_cons.2 (Decidable.byContradiction fun hb => ?_)
      rw [List.takeWhile_cons, if_pos (by simpa using hb)] at h
      exact absurd h (List.cons_ne_nil _ _)

/-- What is left after trimming does not end in a slash or in a single point: its last part, if there is one, names
    something. -/
theorem takeWhile_trimBack (t : Bytes) :
    (trimBack t).takeWhile (· != slash) ≠ [point]
      ∧ ((trimBack t).takeWhile (· != slash) = [] → trimBack t = []) := by
  fun_induction trimBack t with
  | case1 => exact ⟨List.cons_ne_nil _ _ ∘ Eq.symm, fun _ => rfl⟩
  | case2 b rest _ ih => exact ih
  | case3 b rest hnames =>
      rw [not_or] at hnames
      rw [List.takeWhile_cons, if_pos (by simpa using hnames.1)]
      refine ⟨fun heq => ?_, fun heq => absurd heq (List.cons_ne_nil _ _)⟩
      obtain ⟨rfl, hrest⟩ := List.cons.inj heq
      exact hnames.2 ⟨rfl, nameEnds_of_takeWhile hrest⟩

/-- The last part of the body is no single point. -/
theorem last_ne_point {p : Path} {last : Bytes} (hlast : (p.body.takeWhile (· != slash)).reverse = last) :
    last ≠ [point] := by
  rintro rfl
  exact (takeWhile_trimBack _).1 (List.reverse_eq_iff.1 hlast)

/-- A path without a last part names only directories by themselves behind its lead. -/
theorem namesOf_of_last_eq_nil {p : Path} (hlast : p.body.takeWhile (· != slash) = []) :
    ∃ n, namesOf p = namesOf (p.take p.leadLength) ++ List.replicate n [point] := by
  have hbody : trimBack (p.drop p.leadLength).reverse = [] := (takeWhile_trimBack _).2 hlast
  obtain ⟨n, hn⟩ := namesOf_trimBack (p.drop p.leadLength).reverse
  rw [List.reverse_reverse, hbody] at hn
  have hwhole := namesOf_lead_append p List.prefix_rfl
  rw [List.take_append_drop, hn] at hwhole
  exact ⟨n, hwhole⟩

/-! ### The lead -/

/-- The first name of a path begins as the path does. -/
theorem namesOf_cons {b : UInt8} (hb : b ≠ slash) (p : Path) :
    ∃ name names, namesOf (b :: p) = (b :: name) :: names := by
  by_cases hends : nameEnds p = true
  · exact ⟨[], _, namesOf_cons_of_nameEnds hb hends⟩
  · obtain ⟨name, names, hnames⟩ := exists_namesOf_of_not_nameEnds hends
    exact ⟨name, names, namesOf_cons_of_not_nameEnds hb hends hnames⟩

/-- A relative path whose first name is a single point begins with it and nothing else before a slash. -/
theorem take_leadLength_of_point {p : Path} (hpoint : (namesOf p).head? = some [point])
    (hrelative : p.head? ≠ some slash) : p.take p.leadLength = [point] := by
  cases p with
  | nil => exact absurd hpoint (by decide)
  | cons b rest =>
      have hb : b ≠ slash := fun heq => hrelative (by rw [heq]; rfl)
      by_cases hends : nameEnds rest = true
      · rw [namesOf_cons_of_nameEnds hb hends] at hpoint
        obtain rfl : b = point := by simpa using hpoint
        rw [leadLength, if_pos (.inr ⟨rfl, hends⟩)]
        rfl
      · -- The first name goes on behind its first byte.
        cases rest with
        | nil => exact absurd rfl hends
        | cons d rest =>
            rw [nameEnds_cons] at hends
            obtain ⟨name, names, hnames⟩ := namesOf_cons hends rest
            rw [namesOf_cons_of_not_nameEnds hb (mt nameEnds_cons.1 hends) hnames] at hpoint
            simp at hpoint

/-- A path begins where its parent does. -/
theorem lead_parent {p : Path} {last : Bytes} (hne : last ≠ [])
    (hlast : (p.body.takeWhile (· != slash)).reverse = last) : p.parent.lead = p.lead := by
  unfold lead
  by_cases habsolute : p.head? = some slash
  · rw [if_pos habsolute, if_pos (p.head?_parent.2 habsolute)]
  rw [if_neg habsolute, if_neg (mt p.head?_parent.1 habsolute)]
  obtain ⟨m, n, hnames⟩ := namesOf_of_last hne hlast
  cases hparent : namesOf p.parent with
  | cons name names =>
      rw [hnames, hparent]
      rfl
  | nil =>
      -- The parent names nothing, so it does not hold the point that the path would begin with.
      have hpoint : (namesOf p).head? ≠ some [point] := by
        intro hpoint
        obtain ⟨part, hpart, heq⟩ := p.parent_eq
        have htake := namesOf_lead_append p hpart
        have hfirst : namesOf [point] = [[point]] := rfl
        rw [← heq, hparent, take_leadLength_of_point hpoint habsolute, hfirst] at htake
        exact absurd htake (by simp)
      rw [if_neg hpoint]
      rfl

/-- The components of a path with a last part are those of its parent and what this part leads through. -/
theorem components_of_last {p : Path} {last : Bytes} (hne : last ≠ [])
    (hlast : (p.body.takeWhile (· != slash)).reverse = last) :
    p.components = p.parent.components ++ (Component.ofPart? last).toList := by
  obtain ⟨m, n, hnames⟩ := namesOf_of_last hne hlast
  rw [components, components, lead_parent hne hlast, hnames, List.filterMap_append, List.filterMap_append,
    filterMap_points, List.append_nil, List.append_assoc, List.filterMap_cons, filterMap_points]
  cases Component.ofPart? last with
  | none => rfl
  | some component => rfl

/-- Behind the lead of a path without a last part there is no component. -/
theorem components_of_last_eq_nil {p : Path} (hlast : p.body.takeWhile (· != slash) = []) :
    p.components = p.lead := by
  obtain ⟨n, hnames⟩ := namesOf_of_last_eq_nil hlast
  have hlead : (namesOf (p.take p.leadLength)).filterMap Component.ofPart? = [] := by
    fun_cases leadLength p with
    | case1 => rfl
    | case2 b rest hlead =>
        rcases hlead with rfl | ⟨rfl, -⟩
        · rfl
        · rfl
    | case3 => rfl
  rw [components, hnames, List.filterMap_append, filterMap_points, hlead, List.append_nil, List.append_nil]

/-! ### File names among the components -/

/-- A path with a file name goes through its parent and then through the file. -/
theorem components_of_fileName? {p : Path} {name : Bytes} (h : p.fileName? = some name) :
    p.components = p.parent.components ++ [.name name] := by
  obtain ⟨hne, hpoints, hlast⟩ := eq_of_fileName? h
  rw [components_of_last hne hlast, ofPart?_eq_name (last_ne_point hlast) hpoints]
  rfl

/-- The file name of a path is its last component, if that is a name. -/
theorem fileName?_eq_some_iff {p : Path} {name : Bytes} :
    p.fileName? = some name ↔ p.components.getLast? = some (.name name) := by
  constructor
  · intro h
    rw [components_of_fileName? h, List.getLast?_append]
    rfl
  intro h
  cases hname : p.fileName? with
  | some other =>
      rw [components_of_fileName? hname, List.getLast?_append] at h
      exact congrArg some (Component.name.inj (Option.some.inj h))
  | none =>
      unfold fileName? at hname
      dsimp only at hname
      split at hname
      · rename_i hlast
        rcases hlast with hlast | hlast
        · rw [components_of_last_eq_nil (List.reverse_eq_nil_iff.1 hlast), lead] at h
          split at h
          · simp at h
          · split at h
            · simp at h
            · simp at h
        · have hparent : Component.ofPart? [point, point] = some .parent := rfl
          rw [components_of_last (List.cons_ne_nil _ _) hlast, hparent, List.getLast?_append] at h
          simp at h
      · contradiction

theorem lead_join (directory : Path) {name : Bytes} (hne : name ≠ []) (hslash : slash ∉ name)
    (hpoint : name ≠ [point]) : (join directory name).lead = directory.lead := by
  have hfirst : (namesOf directory ++ [name]).head? = some [point] ↔ (namesOf directory).head? = some [point] := by
    cases namesOf directory with
    | nil => simpa using hpoint
    | cons first names => rfl
  simp only [lead, head?_join directory hslash, namesOf_join directory hne hslash, hfirst]

/-- A path joined with a name goes through its components and then through the name. -/
theorem components_join (directory : Path) {name : Bytes} (hne : name ≠ []) (hslash : slash ∉ name)
    (hpoint : name ≠ [point]) (hpoints : name ≠ [point, point]) :
    (join directory name).components = directory.components ++ [.name name] := by
  rw [components, components, lead_join directory hne hslash hpoint, namesOf_join directory hne hslash,
    List.filterMap_append, List.append_assoc, List.filterMap_cons, ofPart?_eq_name hpoint hpoints]
  rfl

/-- A name splits at its last point, if that is not its first character. -/
theorem splitName_append {stem extension : Bytes} (hne : stem ≠ []) (hpoint : point ∉ extension) :
    splitName (stem ++ point :: extension) = (stem, some extension) := by
  have hstop : ∀ c ∈ extension.reverse, (c != point) = true := by
    intro c hc
    simp only [bne_iff_ne, ne_eq]
    rintro rfl
    exact hpoint (List.mem_reverse.1 hc)
  have hreverse : (stem ++ point :: extension).reverse = extension.reverse ++ point :: stem.reverse := by simp
  have hdrop : (stem ++ point :: extension).reverse.dropWhile (· != point) = point :: stem.reverse := by
    rw [hreverse, List.dropWhile_append_of_pos hstop]
    rfl
  have htake : (stem ++ point :: extension).reverse.takeWhile (· != point) = extension.reverse := by
    rw [hreverse, List.takeWhile_append_of_pos hstop]
    exact List.append_nil _
  obtain ⟨c, rest, hrest⟩ := List.exists_cons_of_ne_nil (mt List.reverse_eq_nil_iff.1 hne)
  rw [splitName, hdrop, htake, hrest]
  simp only [← hrest, List.reverse_reverse]

/-! ### Backups -/

section Backup

variable {p q : Path}

/-- The backup of a script goes through the parents of the script and then through its own name. -/
theorem components_backup (h : p.extension? = some (Text.bytes "js".toList)) :
    p.backup.components = p.parent.components ++ [.name p.backupName] := by
  have hlength : 2 < p.backupName.length := p.backupName_eq ▸ lt_length_append_js _
  rw [backup_eq_join h]
  refine components_join p.parent ?_ (slash_not_mem_backupName h) ?_ ?_
  · exact List.ne_nil_of_length_pos (by omega)
  · exact fun heq => absurd (heq ▸ hlength) (by decide)
  · exact fun heq => absurd (heq ▸ hlength) (by decide)

theorem splitName_backupName (p : Path) :
    splitName p.backupName = (Text.bytes (p.stemText ++ ".orig".toList), some (Text.bytes "js".toList)) := by
  have hne : Text.bytes (p.stemText ++ ".orig".toList) ≠ [] := by
    rw [Text.bytes_append]
    exact List.append_ne_nil_of_right_ne_nil _ (by decide)
  rw [backupName_eq]
  exact splitName_append hne (by decide)

/-- The backup of a script whose path is text is named after its stem. -/
theorem backupName_of_isUtf8 (h : p.extension? = some (Text.bytes "js".toList)) (htext : IsUtf8 p) :
    p.backupName = p.stem ++ Text.bytes ".orig.js".toList := by
  rw [backupName, Text.bytes_append, bytes_stemText h htext]

/-- Backups of one name belong to scripts of one stem, if the paths are text. -/
theorem stem_eq_of_backupName (hp : p.extension? = some (Text.bytes "js".toList))
    (hq : q.extension? = some (Text.bytes "js".toList)) (hptext : IsUtf8 p) (hqtext : IsUtf8 q)
    (h : q.backupName = p.backupName) : q.stem = p.stem := by
  rw [backupName_of_isUtf8 hp hptext, backupName_of_isUtf8 hq hqtext] at h
  exact List.append_cancel_right h

/-- Scripts that are text and have one backup path, as its components go, are one path as their components go. -/
theorem components_eq_of_backup (hp : p.extension? = some (Text.bytes "js".toList))
    (hq : q.extension? = some (Text.bytes "js".toList)) (hptext : IsUtf8 p) (hqtext : IsUtf8 q)
    (h : q.backup.components = p.backup.components) : q.components = p.components := by
  rw [components_backup hp, components_backup hq] at h
  obtain ⟨hparents, hname⟩ := List.append_inj' h rfl
  have hstem := stem_eq_of_backupName hp hq hptext hqtext (Component.name.inj (List.cons.inj hname).1)
  rw [components_of_fileName? (fileName_eq_of_extension? hp).1,
    components_of_fileName? (fileName_eq_of_extension? hq).1, hparents, hstem]

/-- Scripts whose paths are text and whose backups are one file are one file. -/
theorem resolve_eq_of_backup {tree : FileTree} {place : Place} {held content : ByteArray}
    (hp : p.extension? = some (Text.bytes "js".toList)) (hq : q.extension? = some (Text.bytes "js".toList))
    (hptext : IsUtf8 p) (hqtext : IsUtf8 q) (hreadp : tree.read p = .ok held) (hreadq : tree.read q = .ok content)
    (hplacep : tree.resolve p.backup = .ok place) (hplaceq : tree.resolve q.backup = .ok place) :
    tree.resolve q = tree.resolve p := by
  obtain ⟨directory, hresolvep, hbackupp⟩ := siblings_of_read hp hreadp
  obtain ⟨directory', hresolveq, hbackupq⟩ := siblings_of_read hq hreadq
  have hkeys := Place.within.inj ((hbackupq place hplaceq).symm.trans (hbackupp place hplacep))
  obtain ⟨hdirectory, hname⟩ := List.append_inj' hkeys rfl
  have hstem := stem_eq_of_backupName hp hq hptext hqtext (List.cons.inj hname).1
  rw [hresolvep, hresolveq, hdirectory, hstem]

/-- The backup of a script whose path is text is a distinct sibling. It goes through the same parents, its name is the
    stem of the script with `.orig` in front of the same extension, so it is not the script. Scripts with equal backup
    paths are equal paths, and scripts whose backups lead to one place in a tree are one file there. -/
theorem backup_distinctSibling (hp : p.extension? = some (Text.bytes "js".toList)) (hptext : IsUtf8 p) :
    p.components = p.parent.components ++ [.name (p.stem ++ Text.bytes ".js".toList)]
      ∧ p.backup.components = p.parent.components ++ [.name (p.stem ++ Text.bytes ".orig.js".toList)]
      ∧ p.backup.parent.components = p.parent.components
      ∧ p.backup.stem = p.stem ++ Text.bytes ".orig".toList
      ∧ p.backup.extension? = some (Text.bytes "js".toList)
      ∧ p.backup.components ≠ p.components
      ∧ ∀ q : Path, q.extension? = some (Text.bytes "js".toList) → IsUtf8 q →
          (q.backup.components = p.backup.components → q.components = p.components)
            ∧ ∀ (tree : FileTree) (held content : ByteArray) (place : Place),
                tree.read p = .ok held → tree.read q = .ok content →
                tree.resolve p.backup = .ok place → tree.resolve q.backup = .ok place →
                  tree.resolve q = tree.resolve p := by
  obtain ⟨hname, -⟩ := fileName_eq_of_extension? hp
  have hcomponents : p.components = p.parent.components ++ [.name (p.stem ++ Text.bytes ".js".toList)] :=
    components_of_fileName? hname
  have hbackup := components_backup hp
  have hbackupName : p.backup.fileName? = some p.backupName :=
    fileName?_eq_some_iff.2 (by rw [hbackup, List.getLast?_append]; rfl)
  refine ⟨hcomponents, ?backup, ?parents, ?stem, ?extension, ?distinct, fun q hq hqtext => ⟨?components, ?places⟩⟩
  case backup =>
    rw [hbackup, backupName_of_isUtf8 hp hptext]
  case parents =>
    rw [components_of_fileName? hbackupName] at hbackup
    exact (List.append_inj' hbackup rfl).1
  case stem =>
    rw [Path.stem, hbackupName]
    dsimp only
    rw [splitName_backupName, Text.bytes_append, bytes_stemText hp hptext]
  case extension =>
    rw [extension?, hbackupName]
    exact congrArg Prod.snd p.splitName_backupName
  case distinct =>
    rw [hcomponents, hbackup]
    intro heq
    exact backupName_ne p (Component.name.inj (List.cons.inj (List.append_cancel_left heq)).1)
  case components => exact components_eq_of_backup hp hq hptext hqtext
  case places =>
    intro tree held content place hreadp hreadq hplacep hplaceq
    exact resolve_eq_of_backup hp hq hptext hqtext hreadp hreadq hplacep hplaceq

/-- A script whose name begins with points, behind a written-out start, a repeated slash and a step back up. -/
def windingPath : Path :=
  Text.bytes "./art//../..js/.".toList

theorem backup_distinctSibling_windingPath :
    windingPath.extension? = some (Text.bytes "js".toList)
      ∧ windingPath.backup.components = [.current, .name (Text.bytes "art".toList), .parent,
        .name (Text.bytes "..orig.js".toList)]
      ∧ ∀ q : Path, q.extension? = some (Text.bytes "js".toList) → IsUtf8 q →
          q.backup.components = [.current, .name (Text.bytes "art".toList), .parent,
            .name (Text.bytes "..orig.js".toList)] →
          q.components = [.current, .name (Text.bytes "art".toList), .parent, .name (Text.bytes "..js".toList)] := by
  have hext : windingPath.extension? = some (Text.bytes "js".toList) := by decide
  have htext : IsUtf8 windingPath := ⟨_, rfl⟩
  have hbackup : windingPath.backup.components = [.current, .name (Text.bytes "art".toList), .parent,
      .name (Text.bytes "..orig.js".toList)] := by decide
  have hcomponents : windingPath.components = [.current, .name (Text.bytes "art".toList), .parent,
      .name (Text.bytes "..js".toList)] := by decide
  obtain ⟨-, -, -, -, -, -, honly⟩ := backup_distinctSibling hext htext
  refine ⟨hext, hbackup, fun q hq hqtext hsame => ?_⟩
  exact ((honly q hq hqtext).1 (hsame.trans hbackup.symm)).trans hcomponents

end Backup

end Path

end CanvasExport
