/-
Module: CanvasExport.Proofs.File.Tree
Layer: Proofs
Purpose: Walks through file trees, and what writing a file does to them. A walk asks of every place on its way only
  that it is a directory, so a tree that keeps its directories keeps its walks; writing a file makes and replaces
  no directory. A file that is read and its backup lie in one directory under two different names.
Main exports: FileTree.SameDirectories, FileTree.resolve_of_sameDirectories, FileTree.read_eq_ok_iff,
  FileTree.write_eq_ok_iff, FileTree.sameDirectories_of_write, FileTree.read_of_write, FileTree.siblings_of_read
-/
import CanvasExport.Proofs.File.Path
import CanvasExport.File.Disk

namespace CanvasExport.FileTree

open CanvasExport.Path (slash point)

variable {tree tree' : FileTree}

/-! ### One step of a walk -/

/-- A step leads on from a directory: to itself, to the one above, or to what a name of bounded length names. -/
theorem step_eq_ok_iff {place next : Place} {name : Bytes} :
    tree.step place name = .ok next ↔ tree.at? place = some .directory ∧
      (name = [point] ∧ next = place
        ∨ name = [point, point] ∧ next = tree.above place
        ∨ name ≠ [point] ∧ name ≠ [point, point] ∧ name.length ≤ longestName ∧ below name place = some next) := by
  unfold step
  split
  · rename_i hdirectory
    by_cases hpoint : name = [point]
    · subst hpoint
      simp [hdirectory, eq_comm]
    · by_cases hpoints : name = [point, point]
      · subst hpoints
        simp [hdirectory, eq_comm]
      · by_cases hlong : longestName < name.length
        · simp [hdirectory, hpoint, hpoints, hlong, Nat.not_le.2 hlong]
        · cases hbelow : below name place with
          | none => simp [hdirectory, hpoint, hpoints, hlong]
          | some reached => simp [hdirectory, hpoint, hpoints, hlong, Nat.le_of_not_lt hlong]
  · rename_i hfile
    simp [hfile]
  · rename_i hnone
    simp [hnone]

/-- A name that is not made of points alone leads to the key it extends. -/
theorem key_of_step {place next : Place} {name : Bytes} (h : tree.step place name = .ok next)
    (hpoint : name ≠ [point]) (hpoints : name ≠ [point, point]) :
    ∃ key, place = .within key ∧ next = .within (key ++ [name]) := by
  obtain ⟨-, hcases⟩ := step_eq_ok_iff.1 h
  rcases hcases with ⟨rfl, -⟩ | ⟨rfl, -⟩ | ⟨-, -, -, hbelow⟩
  · exact absurd rfl hpoint
  · exact absurd rfl hpoints
  · cases place with
    | outside => simp [below] at hbelow
    | within key => exact ⟨key, rfl, (Option.some.inj hbelow).symm⟩

/-! ### Walks -/

/-- A walk is its first step and the walk from there. -/
theorem walk_cons_iff {place next : Place} {name : Bytes} {names : List Bytes} :
    (name :: names).foldlM tree.step place = .ok next ↔
      ∃ reached, tree.step place name = .ok reached ∧ names.foldlM tree.step reached = .ok next := by
  rw [List.foldlM_cons]
  cases tree.step place name with
  | error error => simp [bind, Except.bind]
  | ok reached => simp [bind, Except.bind]

/-- A walk along two lists of names leads along the second from where the first has led. -/
theorem walk_append_iff {place next : Place} {names more : List Bytes} :
    (names ++ more).foldlM tree.step place = .ok next ↔
      ∃ reached, names.foldlM tree.step place = .ok reached ∧ more.foldlM tree.step reached = .ok next := by
  rw [List.foldlM_append]
  cases names.foldlM tree.step place with
  | error error => simp [bind, Except.bind]
  | ok reached => simp [bind, Except.bind]

/-- Points that stand for the directory itself lead nowhere else. -/
theorem eq_of_walk_points {n : Nat} {place next : Place}
    (h : (List.replicate n [point]).foldlM tree.step place = .ok next) : next = place := by
  induction n with
  | zero => exact (Except.ok.inj h).symm
  | succ n ih =>
      obtain ⟨reached, hstep, hrest⟩ := walk_cons_iff.1 h
      obtain ⟨-, ⟨-, rfl⟩ | ⟨hpoints, -⟩ | ⟨hpoint, -⟩⟩ := step_eq_ok_iff.1 hstep
      · exact ih hrest
      · exact absurd hpoints (by decide)
      · exact absurd rfl hpoint

/-- A path leads to where its names lead from its start, if it can name a place at all; behind a slash at its end
    that must be a directory. -/
theorem resolve_eq_ok_iff {p : Path} {place : Place} :
    tree.resolve p = .ok place ↔
      p.contains 0 = false ∧ p.length ≤ longestPath ∧ p ≠ []
        ∧ (namesOf p).foldlM tree.step (tree.start p) = .ok place
        ∧ (p.getLast? = some slash → tree.at? place = some .directory) := by
  unfold resolve
  by_cases hnull : p.contains 0 = true
  · simp only [hnull, if_true]
    exact iff_of_false (fun h => by contradiction) (fun h => by simp at h)
  by_cases hlong : longestPath < p.length
  · rw [if_neg hnull, if_pos hlong]
    exact iff_of_false (fun h => by contradiction) (fun h => absurd h.2.1 (Nat.not_le.2 hlong))
  by_cases hempty : p = []
  · rw [if_neg hnull, if_neg hlong, if_pos (by simpa using hempty)]
    exact iff_of_false (fun h => by contradiction) (fun h => h.2.2.1 hempty)
  rw [if_neg hnull, if_neg hlong, if_neg (by simpa using hempty)]
  have hfits : p.contains 0 = false ∧ p.length ≤ longestPath ∧ p ≠ [] :=
    ⟨by simpa using hnull, Nat.le_of_not_lt hlong, hempty⟩
  simp only [hfits, ne_eq, not_false_eq_true, true_and]
  cases (namesOf p).foldlM tree.step (tree.start p) with
  | error error => simp [bind, Except.bind]
  | ok reached =>
      simp only [bind, Except.bind, Except.ok.injEq]
      by_cases hslash : p.getLast? = some slash
      · cases hplace : tree.at? reached with
        | none =>
            rw [if_pos hslash]
            refine iff_of_false (fun h => by contradiction) ?_
            rintro ⟨rfl, hdirectory⟩
            simp [hplace] at hdirectory
            exact hdirectory hslash
        | some entry =>
            cases entry with
            | directory =>
                rw [if_pos hslash]
                refine ⟨fun h => ?_, fun h => congrArg Except.ok h.1⟩
                obtain rfl := Except.ok.inj h
                exact ⟨rfl, fun _ => hplace⟩
            | file content =>
                rw [if_pos hslash]
                refine iff_of_false (fun h => by contradiction) ?_
                rintro ⟨rfl, hdirectory⟩
                simp [hplace] at hdirectory
                exact hdirectory hslash
      · rw [if_neg hslash]
        refine ⟨fun h => ⟨Except.ok.inj h, fun hlast => absurd hlast hslash⟩, fun h => congrArg Except.ok h.1⟩

/-- The second tree has the directories of the first, and walks start at the same places. -/
structure SameDirectories (tree tree' : FileTree) : Prop where
  rooted : tree'.rooted = tree.rooted
  workingDirectory : tree'.workingDirectory = tree.workingDirectory
  directory : ∀ key, tree.get? key = some .directory → tree'.get? key = some .directory

namespace SameDirectories

theorem root (h : SameDirectories tree tree') : tree'.root = tree.root := by
  rw [FileTree.root, FileTree.root, h.rooted]

theorem at? (h : SameDirectories tree tree') {place : Place} (hplace : tree.at? place = some .directory) :
    tree'.at? place = some .directory := by
  cases place with
  | outside => rfl
  | within key => exact h.directory key hplace

theorem step (h : SameDirectories tree tree') {place next : Place} {name : Bytes}
    (hstep : tree.step place name = .ok next) : tree'.step place name = .ok next := by
  obtain ⟨hdirectory, hcases⟩ := step_eq_ok_iff.1 hstep
  refine step_eq_ok_iff.2 ⟨h.at? hdirectory, ?_⟩
  have habove : tree'.above place = tree.above place := by
    rcases place with _ | (_ | ⟨name, names⟩)
    · rfl
    · exact h.root
    · rfl
  rw [habove]
  exact hcases

theorem walk (h : SameDirectories tree tree') {place next : Place} {names : List Bytes}
    (hwalk : names.foldlM tree.step place = .ok next) : names.foldlM tree'.step place = .ok next := by
  induction names generalizing place with
  | nil => exact hwalk
  | cons name names ih =>
      obtain ⟨reached, hstep, hrest⟩ := walk_cons_iff.1 hwalk
      exact walk_cons_iff.2 ⟨reached, h.step hstep, ih hrest⟩

end SameDirectories

/-- A tree that keeps its directories keeps what its paths lead to. -/
theorem resolve_of_sameDirectories (h : SameDirectories tree tree') {p : Path} {place : Place}
    (hresolve : tree.resolve p = .ok place) : tree'.resolve p = .ok place := by
  have hstart : tree'.start p = tree.start p := by
    rw [start, start, h.root, h.workingDirectory]
  obtain ⟨hnull, hlong, hne, hwalk, hslash⟩ := resolve_eq_ok_iff.1 hresolve
  exact resolve_eq_ok_iff.2 ⟨hnull, hlong, hne, hstart ▸ h.walk hwalk, fun hlast => h.at? (hslash hlast)⟩

/-! ### Reading and writing -/

/-- What is read is the content of the file that the path leads to. -/
theorem read_eq_ok_iff {p : Path} {content : ByteArray} :
    tree.read p = .ok content ↔ ∃ key, tree.resolve p = .ok (.within key) ∧ tree.get? key = some (.file content) := by
  unfold read
  cases hresolve : tree.resolve p with
  | error error => simp [bind, Except.bind]
  | ok place =>
      cases place with
      | outside =>
          simp only [bind, Except.bind, at?]
          exact iff_of_false (fun h => by contradiction) (fun ⟨key, hkey, _⟩ => by simp at hkey)
      | within key =>
          simp only [bind, Except.bind, at?, Except.ok.injEq, Place.within.injEq, exists_eq_left']
          cases hentry : tree.get? key with
          | none => exact iff_of_false (fun h => by contradiction) (fun h => by contradiction)
          | some entry =>
              cases entry with
              | directory => exact iff_of_false (fun h => by contradiction) (fun h => by simp at h)
              | file held => simp [pure, Except.pure]

/-- A write puts a file at the key that the path leads to, unless there is a directory. -/
theorem write_eq_ok_iff {p : Path} {content : ByteArray} :
    tree.write p content = .ok tree' ↔ ∃ key, tree.resolve p = .ok (.within key)
      ∧ tree.get? key ≠ some .directory ∧ tree' = tree.set key (.file content) := by
  unfold write
  cases hresolve : tree.resolve p with
  | error error => simp [bind, Except.bind]
  | ok place =>
      cases place with
      | outside =>
          simp only [bind, Except.bind, at?]
          exact iff_of_false (fun h => by contradiction) (fun ⟨key, hkey, _⟩ => by simp at hkey)
      | within key =>
          simp only [bind, Except.bind, at?, Except.ok.injEq, Place.within.injEq, exists_eq_left']
          cases hentry : tree.get? key with
          | none => simp [pure, Except.pure, eq_comm]
          | some entry =>
              cases entry with
              | directory => exact iff_of_false (fun h => by contradiction) (fun h => absurd rfl h.1)
              | file held => simp [pure, Except.pure, eq_comm]

/-- The top is a directory, so no file is there. -/
theorem ne_nil_of_get? {key : Key} (h : tree.get? key ≠ some .directory) : key ≠ [] := by
  rintro rfl
  exact h rfl

/-- Putting a file where no directory is keeps the directories. -/
theorem sameDirectories_set {key : Key} (h : tree.get? key ≠ some .directory) (content : ByteArray) :
    SameDirectories tree (tree.set key (.file content)) where
  rooted := rfl
  workingDirectory := rfl
  directory other hother := by
    have hne : other ≠ key := by
      rintro rfl
      exact h hother
    rw [get?_set_of_ne tree (.file content) hne]
    exact hother

theorem sameDirectories_of_write {p : Path} {content : ByteArray} (h : tree.write p content = .ok tree') :
    SameDirectories tree tree' := by
  obtain ⟨key, -, hkey, rfl⟩ := write_eq_ok_iff.1 h
  exact sameDirectories_set hkey content

/-- What has been written is read. -/
theorem read_of_write {p : Path} {content : ByteArray} (h : tree.write p content = .ok tree') :
    tree'.read p = .ok content := by
  have hsame := sameDirectories_of_write h
  obtain ⟨key, hresolve, hkey, rfl⟩ := write_eq_ok_iff.1 h
  exact read_eq_ok_iff.2
    ⟨key, resolve_of_sameDirectories hsame hresolve, get?_set_self tree _ (ne_nil_of_get? hkey)⟩

/-- A file that can be read can be replaced. -/
theorem exists_write_of_read {p : Path} {held : ByteArray} (hread : tree.read p = .ok held)
    (content : ByteArray) : ∃ replaced, tree.write p content = .ok replaced := by
  obtain ⟨key, hresolve, hkey⟩ := read_eq_ok_iff.1 hread
  exact ⟨_, write_eq_ok_iff.2 ⟨key, hresolve, by simp [hkey], rfl⟩⟩

/-- Replacing the content of a file changes no walk, whether it leads somewhere or fails. -/
theorem resolve_set_file {key : Key} {held : ByteArray} (h : tree.get? key = some (.file held))
    (content : ByteArray) (p : Path) : (tree.set key (.file content)).resolve p = tree.resolve p := by
  have hfile : tree.get? key ≠ some .directory := by simp [h]
  have hat : ∀ place, (tree.set key (.file content)).at? place = tree.at? place
      ∨ ((tree.set key (.file content)).at? place = some (.file content) ∧ tree.at? place = some (.file held)) := by
    intro place
    cases place with
    | outside => exact .inl rfl
    | within other =>
        by_cases hother : other = key
        · subst hother
          exact .inr ⟨get?_set_self tree _ (ne_nil_of_get? hfile), h⟩
        · exact .inl (get?_set_of_ne tree _ hother)
  have habove : (tree.set key (.file content)).above = tree.above := by
    funext place
    rcases place with _ | (_ | ⟨name, names⟩)
    · rfl
    · rfl
    · rfl
  have hstep : (tree.set key (.file content)).step = tree.step := by
    funext place name
    unfold step
    rw [habove]
    rcases hat place with heq | ⟨hset, hfile⟩
    · rw [heq]
    · rw [hset, hfile]
  have hstart : (tree.set key (.file content)).start p = tree.start p := rfl
  unfold resolve
  rw [hstep, hstart]
  cases (namesOf p).foldlM tree.step (tree.start p) with
  | error error => rfl
  | ok place =>
      simp only [bind, Except.bind]
      rcases hat place with heq | ⟨hset, hfile⟩
      · rw [heq]
      · rw [hset, hfile]

/-! ### A file and its backup -/

/-- A name of more than two bytes is not made of points alone. -/
theorem key_of_step_of_length {place next : Place} {name : Bytes} (h : tree.step place name = .ok next)
    (hlength : 2 < name.length) : ∃ key, place = .within key ∧ next = .within (key ++ [name]) := by
  refine key_of_step h ?_ ?_
  · rintro rfl
    simp at hlength
  · rintro rfl
    simp at hlength

/-- A script that is read lies in a directory under its name, and its backup, wherever it is, lies beside it. -/
theorem siblings_of_read {p : Path} (hext : p.extension? = some (Text.bytes "js".toList)) {content : ByteArray}
    (hread : tree.read p = .ok content) :
    ∃ directory, tree.resolve p = .ok (.within (directory ++ [p.stem ++ Text.bytes ".js".toList]))
      ∧ ∀ place, tree.resolve p.backup = .ok place → place = .within (directory ++ [p.backupName]) := by
  obtain ⟨key, hresolve, -⟩ := read_eq_ok_iff.1 hread
  obtain ⟨m, n, hnames⟩ := Path.namesOf_of_fileName? (Path.fileName_eq_of_extension? hext).1
  have hwalk := (resolve_eq_ok_iff.1 hresolve).2.2.2.1
  rw [hnames] at hwalk
  obtain ⟨reached, hbefore, hbehind⟩ := walk_append_iff.1 hwalk
  obtain ⟨parent, hparent, hpoints⟩ := walk_append_iff.1 hbefore
  obtain rfl := eq_of_walk_points hpoints
  obtain ⟨place, hstep, hrest⟩ := walk_cons_iff.1 hbehind
  obtain rfl := eq_of_walk_points hrest
  obtain ⟨directory, rfl, hplace⟩ := key_of_step_of_length hstep (Path.lt_length_append_js p.stem)
  obtain rfl := Place.within.inj hplace
  refine ⟨directory, hresolve, fun kept hkept => ?_⟩
  have hstart : tree.start p.backup = tree.start p := by
    simp only [start, Path.head?_backup hext]
  have hbackup := (resolve_eq_ok_iff.1 hkept).2.2.2.1
  rw [Path.namesOf_backup hext, hstart] at hbackup
  obtain ⟨parent', hparent', hlast⟩ := walk_append_iff.1 hbackup
  obtain rfl : parent' = .within directory := Except.ok.inj (hparent'.symm.trans hparent)
  obtain ⟨place', hstep', hend⟩ := walk_cons_iff.1 hlast
  obtain rfl : kept = place' := (Except.ok.inj hend).symm
  obtain ⟨directory', heq, hkept'⟩ := key_of_step_of_length hstep'
    (p.backupName_eq ▸ Path.lt_length_append_js _)
  obtain rfl := Place.within.inj heq
  exact hkept'

/-- The names of a script and of its backup differ: what the name of the backup begins with shows itself, so the stem
    of the script would be shown longer than it is. -/
theorem backupName_ne (p : Path) : p.backupName ≠ p.stem ++ Text.bytes ".js".toList := by
  intro heq
  rw [Path.backupName_eq] at heq
  have hstem := List.append_cancel_right heq
  have hshown : p.stemText = p.stemText ++ ".orig".toList :=
    (congrArg Text.lossy hstem).symm.trans (Text.lossy_bytes _)
  have hlength := congrArg List.length hshown
  simp at hlength

end CanvasExport.FileTree
