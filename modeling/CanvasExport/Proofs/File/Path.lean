/-
Module: CanvasExport.Proofs.File.Path
Layer: Proofs
Purpose: The names along a path and along its backup path. A path with a file name names what its parent names,
  then the file; the slashes around these names are lost, and the points that stand for the directory itself are
  all that may lie between them. The backup path names the same parent and then the stem, as it is shown, with its own
  ending; if the path is text, so are its parts and its backup path.
Main exports: FileTree.namesOf_append_slash, Path.namesOf_of_last, Path.namesOf_of_fileName?, Path.namesOf_join,
  Path.fileName_eq_of_extension?, Path.backup_eq_join, Path.head?_backup, Path.isUtf8_backup, Path.bytes_stemText
-/
import CanvasExport.File.Tree
import CanvasExport.Proofs.Text.Bytes

namespace CanvasExport

/-! ### Names between slashes -/

namespace FileTree

open CanvasExport.Path (slash point nameEnds)

theorem namesOf_slash (p : Path) : namesOf (slash :: p) = namesOf p := by
  rw [namesOf, if_pos rfl]

/-- A byte behind which the name ends is a name. -/
theorem namesOf_cons_of_nameEnds {b : UInt8} (hb : b ≠ slash) {p : Path} (hends : nameEnds p = true) :
    namesOf (b :: p) = [b] :: namesOf p := by
  rw [namesOf, if_neg hb, if_pos hends]

/-- A byte in front of a name is its first one. -/
theorem namesOf_cons_of_not_nameEnds {b : UInt8} (hb : b ≠ slash) {p : Path} (hends : ¬ nameEnds p = true)
    {name : Bytes} {names : List Bytes} (h : namesOf p = name :: names) : namesOf (b :: p) = (b :: name) :: names := by
  rw [namesOf, if_neg hb, if_neg hends, h]

/-- A path that starts with a byte of a name has a first name. -/
theorem exists_namesOf_of_not_nameEnds {p : Path} (hends : ¬ nameEnds p = true) :
    ∃ name names, namesOf p = name :: names := by
  cases p with
  | nil => exact absurd rfl hends
  | cons b p =>
      rw [Path.nameEnds_cons] at hends
      rw [namesOf, if_neg hends]
      split
      · exact ⟨_, _, rfl⟩
      split
      · exact ⟨_, _, rfl⟩
      · exact ⟨_, _, rfl⟩

/-- A slash parts the names before it from those behind it. -/
theorem namesOf_append_slash (p q : Path) : namesOf (p ++ slash :: q) = namesOf p ++ namesOf q := by
  induction p with
  | nil => exact namesOf_slash q
  | cons b p ih =>
      have hends : nameEnds (p ++ slash :: q) = nameEnds p := by cases p <;> rfl
      by_cases hb : b = slash
      · subst hb
        rw [List.cons_append, namesOf_slash, namesOf_slash, ih]
      · by_cases hp : nameEnds p = true
        · rw [List.cons_append, namesOf_cons_of_nameEnds hb (hends.trans hp), namesOf_cons_of_nameEnds hb hp, ih,
            List.cons_append]
        · obtain ⟨name, names, hnames⟩ := exists_namesOf_of_not_nameEnds hp
          rw [hnames, List.cons_append] at ih
          rw [List.cons_append, namesOf_cons_of_not_nameEnds hb (hends ▸ hp) ih,
            namesOf_cons_of_not_nameEnds hb hp hnames, List.cons_append]

/-- Bytes without slashes are one name. -/
theorem namesOf_of_not_mem {name : Bytes} (hne : name ≠ []) (h : slash ∉ name) : namesOf name = [name] := by
  induction name with
  | nil => exact absurd rfl hne
  | cons b name ih =>
      rw [List.mem_cons, not_or] at h
      cases name with
      | nil => exact namesOf_cons_of_nameEnds (Ne.symm h.1) rfl
      | cons d name =>
          have hends : ¬ nameEnds (d :: name) = true := fun hd =>
            h.2 (Path.nameEnds_cons.1 hd ▸ List.mem_cons_self)
          exact namesOf_cons_of_not_nameEnds (Ne.symm h.1) hends (ih (List.cons_ne_nil _ _) h.2)

end FileTree

namespace Path

open FileTree

/-! ### The parts of a path -/

/-- A point by itself at the end of a path is one more name. -/
theorem namesOf_reverse_append_point {t : Bytes} (hends : nameEnds t = true) :
    namesOf (t.reverse ++ [point]) = namesOf t.reverse ++ [[point]] := by
  cases t with
  | nil => rfl
  | cons b t =>
      obtain rfl := nameEnds_cons.1 hends
      rw [List.reverse_cons, List.append_assoc, List.singleton_append, namesOf_append_slash, namesOf_append_slash]
      simp [namesOf, point_ne_slash]

/-- What is trimmed off the end of a path names only directories by themselves. -/
theorem namesOf_trimBack (t : Bytes) :
    ∃ n, namesOf t.reverse = namesOf (trimBack t).reverse ++ List.replicate n [point] := by
  fun_induction trimBack t with
  | case1 => exact ⟨0, rfl⟩
  | case2 b rest hidle ih =>
      obtain ⟨n, hn⟩ := ih
      rw [List.reverse_cons]
      rcases hidle with rfl | ⟨rfl, hends⟩
      · refine ⟨n, ?_⟩
        rw [namesOf_append_slash, hn]
        exact List.append_nil _
      · refine ⟨n + 1, ?_⟩
        rw [namesOf_reverse_append_point hends, hn, List.append_assoc, List.replicate_succ']
  | case3 => exact ⟨0, (List.append_nil _).symm⟩

theorem suffix_trimBack (t : Bytes) : trimBack t <:+ t := by
  fun_induction trimBack t with
  | case1 => exact List.suffix_rfl
  | case2 b rest _ ih => exact ih.trans (List.suffix_cons _ _)
  | case3 => exact List.suffix_rfl

/-- The lead of a path names what it names in front of any part of the rest. -/
theorem namesOf_lead_append (p : Path) {part : Path} (h : part <+: p.drop p.leadLength) :
    namesOf (p.take p.leadLength ++ part) = namesOf (p.take p.leadLength) ++ namesOf part := by
  revert h
  fun_cases leadLength p with
  | case1 =>
      intro _
      rfl
  | case2 b rest hlead =>
      intro h
      rcases hlead with rfl | ⟨rfl, hends⟩
      · exact (namesOf_slash part).trans (by simp [namesOf])
      · have hpart : nameEnds part = true := by
          cases part with
          | nil => rfl
          | cons c part =>
              obtain ⟨behind, hrest⟩ : c :: part <+: rest := h
              rw [← hrest, List.cons_append, nameEnds_cons] at hends
              exact nameEnds_cons.2 hends
        have hpoint : namesOf [point] = [[point]] := rfl
        exact (namesOf_cons_of_nameEnds point_ne_slash hpart).trans (by simp [hpoint])
  | case3 =>
      intro _
      rfl

/-- The part of a path before its file name, as its lead and a part of the rest. -/
theorem parent_eq (p : Path) : ∃ part, part <+: p.drop p.leadLength ∧ p.parent = p.take p.leadLength ++ part := by
  refine ⟨_, ?_, rfl⟩
  rw [← List.reverse_suffix, List.reverse_reverse]
  exact (suffix_trimBack _).trans ((List.drop_suffix _ _).trans
    ((List.dropWhile_suffix _).trans (suffix_trimBack _)))

theorem prefix_parent (p : Path) : p.parent <+: p := by
  obtain ⟨part, ⟨rest, hrest⟩, hparent⟩ := p.parent_eq
  refine ⟨rest, ?_⟩
  rw [hparent, List.append_assoc, hrest, List.take_append_drop]

/-- A path and its parent are both absolute, or neither is. -/
theorem head?_parent (p : Path) : p.parent.head? = some slash ↔ p.head? = some slash := by
  constructor
  · intro hparent
    obtain ⟨rest, hrest⟩ := List.head?_eq_some_iff.1 hparent
    obtain ⟨behind, hbehind⟩ := p.prefix_parent
    rw [← hbehind, hrest]
    rfl
  · intro hhead
    obtain ⟨rest, rfl⟩ := List.head?_eq_some_iff.1 hhead
    obtain ⟨part, -, hparent⟩ := parent_eq (slash :: rest)
    rw [hparent]
    rfl

/-- What is dropped up to a byte is dropped to the first such byte. -/
theorem eq_of_dropWhile_eq_cons {stop c : UInt8} {t behind : Bytes} (h : t.dropWhile (· != stop) = c :: behind) :
    c = stop := by
  have hhead := List.head_dropWhile_not (· != stop) (h ▸ List.cons_ne_nil c behind)
  simpa [h] using hhead

theorem slash_not_mem_last {p : Path} {last : Bytes} (hlast : (p.body.takeWhile (· != slash)).reverse = last) :
    slash ∉ last := by
  intro hmem
  rw [← hlast, List.mem_reverse] at hmem
  simpa using List.all_eq_true.1 List.all_takeWhile _ hmem

/-- A file name is the last part of the body, not empty and not the name of the directory above. -/
theorem eq_of_fileName? {p : Path} {name : Bytes} (h : p.fileName? = some name) :
    name ≠ [] ∧ name ≠ [point, point] ∧ (p.body.takeWhile (· != slash)).reverse = name := by
  unfold fileName? at h
  dsimp only at h
  split at h
  · contradiction
  · rename_i hname
    rw [not_or] at hname
    obtain rfl := Option.some.inj h
    exact ⟨hname.1, hname.2, rfl⟩

/-- A path whose body has a last part names what its parent names, this part, and otherwise only directories by
    themselves. -/
theorem namesOf_of_last {p : Path} {last : Bytes} (hne : last ≠ [])
    (hlast : (p.body.takeWhile (· != slash)).reverse = last) :
    ∃ m n, namesOf p = namesOf p.parent ++ List.replicate m [point] ++ last :: List.replicate n [point] := by
  have hslash := slash_not_mem_last hlast
  obtain ⟨n, hn⟩ := namesOf_trimBack (p.drop p.leadLength).reverse
  rw [List.reverse_reverse] at hn
  have hwhole := namesOf_lead_append p List.prefix_rfl
  rw [List.take_append_drop, hn] at hwhole
  have hparent : namesOf p.parent = namesOf (p.take p.leadLength)
      ++ namesOf (trimBack ((p.body.dropWhile (· != slash)).drop 1)).reverse := by
    obtain ⟨part, hpart, heq⟩ := p.parent_eq
    obtain rfl := List.append_cancel_left heq
    exact namesOf_lead_append p hpart
  have hbody : p.body.reverse = (p.body.dropWhile (· != slash)).reverse ++ last := by
    rw [← hlast, ← List.reverse_append, List.takeWhile_append_dropWhile]
  obtain ⟨m, hm⟩ := namesOf_trimBack ((p.body.dropWhile (· != slash)).drop 1)
  refine ⟨m, n, ?_⟩
  rw [hwhole, hparent]
  change _ ++ (namesOf p.body.reverse ++ _) = _
  rw [hbody]
  cases hrest : p.body.dropWhile (· != slash) with
  | nil =>
      rw [hrest] at hm
      have hm0 : List.replicate m [point] = [] := (List.append_eq_nil_iff.1 hm.symm).2
      have hnil : namesOf (trimBack (([] : Bytes).drop 1)).reverse = [] := rfl
      rw [hm0, hnil, List.reverse_nil, List.nil_append, namesOf_of_not_mem hne hslash, List.append_nil,
        List.append_nil, List.singleton_append]
  | cons c behind =>
      obtain rfl := eq_of_dropWhile_eq_cons hrest
      rw [hrest, List.drop_succ_cons, List.drop_zero] at hm
      rw [List.reverse_cons, List.append_assoc, List.singleton_append, namesOf_append_slash, hm,
        namesOf_of_not_mem hne hslash, List.drop_succ_cons, List.drop_zero]
      simp only [List.append_assoc, List.singleton_append]

/-- A path with a file name names what its parent names, the file, and otherwise only directories by themselves. -/
theorem namesOf_of_fileName? {p : Path} {name : Bytes} (h : p.fileName? = some name) :
    ∃ m n, namesOf p = namesOf p.parent ++ List.replicate m [point] ++ name :: List.replicate n [point] := by
  obtain ⟨hne, -, hlast⟩ := eq_of_fileName? h
  exact namesOf_of_last hne hlast

/-- A path joined with a name names what it names and then this name. -/
theorem namesOf_join (directory : Path) {name : Bytes} (hne : name ≠ []) (hslash : slash ∉ name) :
    namesOf (join directory name) = namesOf directory ++ [name] := by
  have hname := namesOf_of_not_mem hne hslash
  unfold join
  split
  · rename_i hlast
    rcases hlast with rfl | hlast
    · exact hname
    · obtain ⟨front, rfl⟩ := List.getLast?_eq_some_iff.1 hlast
      rw [List.append_assoc, List.singleton_append, namesOf_append_slash, namesOf_append_slash, hname]
      simp [namesOf]
  · rw [namesOf_append_slash, hname]

/-- A path joined with a name is absolute if it was. -/
theorem head?_join (directory : Path) {name : Bytes} (hslash : slash ∉ name) :
    (join directory name).head? = some slash ↔ directory.head? = some slash := by
  cases directory with
  | nil =>
      refine iff_of_false (fun hhead => hslash (List.mem_of_head? ?_)) (by simp)
      simpa [join] using hhead
  | cons c rest =>
      unfold join
      split
      · rfl
      · rfl

/-! ### Stems and extensions -/

/-- A name with an extension is its stem, a point and the extension. -/
theorem eq_of_splitName {name stem extension : Bytes} (h : splitName name = (stem, some extension)) :
    name = stem ++ point :: extension ∧ stem ≠ [] := by
  unfold splitName at h
  split at h
  · simp at h
  · simp at h
  · rename_i c behind hnot hrest
    obtain ⟨rfl, hextension⟩ := Prod.mk.inj h
    obtain rfl := Option.some.inj hextension
    obtain rfl := eq_of_dropWhile_eq_cons hrest
    have hsplit : name.reverse = name.reverse.takeWhile (· != point) ++ point :: behind := by
      rw [← hrest, List.takeWhile_append_dropWhile]
    constructor
    · have hname := congrArg List.reverse hsplit
      simpa using hname
    · intro hnil
      obtain rfl := List.reverse_eq_nil_iff.1 hnil
      exact hnot rfl

/-- A path with an extension has a file name, which is its stem, a point and the extension. -/
theorem fileName_eq_of_extension? {p : Path} {extension : Bytes} (h : p.extension? = some extension) :
    p.fileName? = some (p.stem ++ point :: extension) ∧ p.stem ≠ [] := by
  obtain ⟨name, hname, hsplit⟩ := Option.bind_eq_some_iff.1 h
  have hpair : splitName name = (p.stem, some extension) := by
    rw [stem, hname, ← hsplit]
  obtain ⟨hwhole, hne⟩ := eq_of_splitName hpair
  exact ⟨hwhole ▸ hname, hne⟩

/-- The name that the backup of a path has in its directory. -/
def backupName (p : Path) : Bytes :=
  Text.bytes (p.stemText ++ ".orig.js".toList)

/-- The backup has the extension of a script. -/
theorem backupName_eq (p : Path) :
    p.backupName = Text.bytes (p.stemText ++ ".orig".toList) ++ Text.bytes ".js".toList := by
  have hend : ".orig.js".toList = ".orig".toList ++ ".js".toList := rfl
  rw [backupName, hend, ← List.append_assoc, Text.bytes_append]

theorem lt_length_append_js (stem : Bytes) : 2 < (stem ++ Text.bytes ".js".toList).length := by
  have hend : (Text.bytes ".js".toList).length = 3 := by decide
  rw [List.length_append, hend]
  omega

theorem slash_not_mem_stem {p : Path} {extension : Bytes} (h : p.extension? = some extension) : slash ∉ p.stem := by
  obtain ⟨hname, -⟩ := fileName_eq_of_extension? h
  exact fun hmem => slash_not_mem_last (eq_of_fileName? hname).2.2 (List.mem_append_left _ hmem)

theorem slash_not_mem_backupName {p : Path} {extension : Bytes} (h : p.extension? = some extension) :
    slash ∉ p.backupName := by
  intro hmem
  obtain ⟨c, hc, hslash⟩ := Text.mem_of_mem_bytes hmem (by decide)
  rcases List.mem_append.1 hc with hc | hc
  · have hcode : c.toNat = 0x2F := hslash
    obtain ⟨b, hb, heq⟩ := Text.mem_of_mem_lossy hc (by omega) (by omega)
    obtain rfl : b = slash := UInt8.toNat_inj.1 (heq.trans hslash)
    exact slash_not_mem_stem h hb
  · have hother : ".orig.js".toList.all (fun c => c.toNat != slash.toNat) = true := by decide
    simpa [hslash] using List.all_eq_true.1 hother c hc

theorem backup_eq_join {p : Path} {extension : Bytes} (h : p.extension? = some extension) :
    p.backup = join p.parent p.backupName := by
  simp only [backup, withFileName, (fileName_eq_of_extension? h).1, backupName]

/-- The backup of a path with an extension names the same parent and its own name. -/
theorem namesOf_backup {p : Path} {extension : Bytes} (h : p.extension? = some extension) :
    namesOf p.backup = namesOf p.parent ++ [p.backupName] := by
  have hne : p.backupName ≠ [] := by
    rw [backupName_eq]
    exact List.append_ne_nil_of_right_ne_nil _ (by decide)
  rw [backup_eq_join h]
  exact namesOf_join p.parent hne (slash_not_mem_backupName h)

/-- A path and its backup are both absolute, or neither is. -/
theorem head?_backup {p : Path} {extension : Bytes} (h : p.extension? = some extension) :
    p.backup.head? = some slash ↔ p.head? = some slash := by
  rw [backup_eq_join h, head?_join p.parent (slash_not_mem_backupName h), head?_parent]

/-! ### Paths that are text -/

open Text (IsUtf8)

/-- Trimming takes away whole characters. -/
theorem isUtf8_trimBack {t : Bytes} (h : IsUtf8 t.reverse) : IsUtf8 (trimBack t).reverse := by
  fun_induction trimBack t with
  | case1 => exact h
  | case2 b rest hidle ih =>
      rw [List.reverse_cons] at h
      have hb : b.toNat < 0x80 := by
        rcases hidle with rfl | ⟨rfl, -⟩
        · decide
        · decide
      exact ih (h.of_append_cons hb).1
  | case3 => exact h

theorem isUtf8_lead {p : Path} (h : IsUtf8 p) : IsUtf8 (p.take p.leadLength) ∧ IsUtf8 (p.drop p.leadLength) := by
  fun_cases leadLength p with
  | case1 => exact ⟨.nil, .nil⟩
  | case2 b rest hlead =>
      rcases hlead with rfl | ⟨rfl, -⟩
      · exact ⟨⟨['/'], rfl⟩, (IsUtf8.of_append_cons (p := []) h (by decide)).2⟩
      · exact ⟨⟨['.'], rfl⟩, (IsUtf8.of_append_cons (p := []) h (by decide)).2⟩
  | case3 => exact ⟨.nil, h⟩

/-- The part behind the last slash and the part before it, both reversed, are text if the whole is. -/
theorem isUtf8_around_slash {t : Bytes} (h : IsUtf8 t.reverse) :
    IsUtf8 (t.takeWhile (· != slash)).reverse ∧ IsUtf8 ((t.dropWhile (· != slash)).drop 1).reverse := by
  rw [← List.takeWhile_append_dropWhile (p := (· != slash)) (l := t), List.reverse_append] at h
  cases hrest : t.dropWhile (· != slash) with
  | nil =>
      rw [hrest] at h
      exact ⟨h, .nil⟩
  | cons c behind =>
      obtain rfl := eq_of_dropWhile_eq_cons hrest
      rw [hrest, List.reverse_cons, List.append_assoc, List.singleton_append] at h
      obtain ⟨hbehind, hlast⟩ := h.of_append_cons (by decide)
      exact ⟨hlast, hbehind⟩

theorem isUtf8_body {p : Path} (h : IsUtf8 p) : IsUtf8 p.body.reverse := by
  refine isUtf8_trimBack ?_
  rw [List.reverse_reverse]
  exact (isUtf8_lead h).2

theorem isUtf8_parent {p : Path} (h : IsUtf8 p) : IsUtf8 p.parent :=
  (isUtf8_lead h).1.append (isUtf8_trimBack (isUtf8_around_slash (isUtf8_body h)).2)

theorem isUtf8_stem {p : Path} {extension : Bytes} (hext : p.extension? = some extension) (h : IsUtf8 p) :
    IsUtf8 p.stem := by
  obtain ⟨-, -, hlast⟩ := eq_of_fileName? (fileName_eq_of_extension? hext).1
  have hname := (isUtf8_around_slash (isUtf8_body h)).1
  rw [hlast] at hname
  exact (hname.of_append_cons (by decide)).1

/-- The stem of a path that is text is what it is shown as. -/
theorem bytes_stemText {p : Path} {extension : Bytes} (hext : p.extension? = some extension) (h : IsUtf8 p) :
    Text.bytes p.stemText = p.stem := by
  obtain ⟨t, ht⟩ := isUtf8_stem hext h
  rw [stemText, ← ht, Text.lossy_bytes]

theorem isUtf8_join {directory : Path} {name : Bytes} (hdirectory : IsUtf8 directory) (hname : IsUtf8 name) :
    IsUtf8 (join directory name) := by
  unfold join
  split
  · exact hdirectory.append hname
  · exact hdirectory.append (IsUtf8.append (p := [slash]) ⟨['/'], rfl⟩ hname)

/-- The backup of a path that is text is text. -/
theorem isUtf8_backup {p : Path} {extension : Bytes} (hext : p.extension? = some extension) (h : IsUtf8 p) :
    IsUtf8 p.backup := by
  rw [backup_eq_join hext]
  exact isUtf8_join (isUtf8_parent h) ⟨_, rfl⟩

end Path

end CanvasExport
