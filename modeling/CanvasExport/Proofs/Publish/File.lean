/-
Module: CanvasExport.Proofs.Publish.File
Layer: Proofs
Purpose: What is left of the tree when a file has been published. The file is replaced by what its text is published
  as, and nothing else changes but the backup beside it; a file is published exactly if it can be read, its text can
  be published and its backup can be kept.
Main exports: FileTree.Replaced, FileTree.replaced_of_keep, FileTree.exists_published_iff, FileTree.exists_published,
  FileTree.replaced_of_published
-/
import CanvasExport.Proofs.Publish.Exit

namespace CanvasExport

/-! ### What is left of the tree -/

namespace FileTree

/-- The second tree is the first with the file at a path replaced by a published text: the path holds the text, the
    backup path beside it holds what the file held before if that is asked for, and all else is as it was. -/
structure Replaced (tree written : FileTree) (path : Path) (source text : Text) (backup : Bool) : Prop where
  text : written.read path = .ok text.utf8
  kept : backup = true → written.read path.backup = .ok source.utf8
  untouched : backup = false → written.read path.backup = tree.read path.backup
  /-- The backup is another entry of the directory in which the file is. -/
  beside : backup = true → ∃ directory,
    tree.resolve path = .ok (.within (directory ++ [path.stem ++ Text.bytes ".js".toList]))
      ∧ tree.resolve path.backup = .ok (.within (directory ++ [Text.bytes (path.stemText ++ ".orig.js".toList)]))
  others : ∀ key, tree.resolve path ≠ .ok (.within key) →
    (backup = true → tree.resolve path.backup ≠ .ok (.within key)) → written.get? key = tree.get? key
  rooted : written.rooted = tree.rooted
  workingDirectory : written.workingDirectory = tree.workingDirectory

/-- Writing a file leaves what every path that leads elsewhere holds. -/
theorem read_of_write_of_ne {tree written : FileTree} {p q : Path} {content : ByteArray}
    (hwrite : tree.write p content = .ok written) {place : Place} (hq : tree.resolve q = .ok place)
    (hne : tree.resolve p ≠ .ok place) : written.read q = tree.read q := by
  have hq' := resolve_of_sameDirectories (sameDirectories_of_write hwrite) hq
  obtain ⟨key, hkey, -, rfl⟩ := write_eq_ok_iff.1 hwrite
  have hat : (tree.set key (.file content)).at? place = tree.at? place := by
    cases place with
    | outside => rfl
    | within other =>
        refine get?_set_of_ne tree _ ?_
        rintro rfl
        exact hne hkey
  unfold read
  rw [hq, hq']
  simp only [bind, Except.bind, hat]

/-- Writing a file changes only the entry that its path leads to. -/
theorem get?_of_write {tree written : FileTree} {p : Path} {content : ByteArray}
    (hwrite : tree.write p content = .ok written) {other : Key} (hne : tree.resolve p ≠ .ok (.within other)) :
    written.get? other = tree.get? other := by
  obtain ⟨key, hkey, -, rfl⟩ := write_eq_ok_iff.1 hwrite
  refine get?_set_of_ne tree _ ?_
  rintro rfl
  exact hne hkey

variable {tree kept written : FileTree} {path : Path} {source text : Text} {backup : Bool}

/-- The backup path of a script never leads to the script. -/
theorem resolve_backup_ne (hext : path.extension? = some (Text.bytes "js".toList)) {content : ByteArray}
    (hread : tree.read path = .ok content) {place : Place} (hplace : tree.resolve path.backup = .ok place) :
    tree.resolve path ≠ .ok place := by
  obtain ⟨directory, hresolve, hbeside⟩ := siblings_of_read hext hread
  rw [hbeside place hplace, hresolve]
  intro heq
  have hnames := List.append_cancel_left (Place.within.inj (Except.ok.inj heq))
  exact backupName_ne path (List.cons.inj hnames).1.symm

/-- Without a backup, replacing a script leaves its backup path as it was, whether it leads somewhere or not. -/
theorem read_backup_of_write (hext : path.extension? = some (Text.bytes "js".toList)) {held content : ByteArray}
    (hread : tree.read path = .ok held) (hwrite : tree.write path content = .ok written) :
    written.read path.backup = tree.read path.backup := by
  cases hplace : tree.resolve path.backup with
  | ok place => exact read_of_write_of_ne hwrite hplace (resolve_backup_ne hext hread hplace)
  | error error =>
      obtain ⟨key, hkey, hentry⟩ := read_eq_ok_iff.1 hread
      obtain ⟨key', hkey', -, rfl⟩ := write_eq_ok_iff.1 hwrite
      obtain rfl := Place.within.inj (Except.ok.inj (hkey.symm.trans hkey'))
      unfold read
      rw [resolve_set_file hentry, hplace]
      rfl

/-- Keeping the source and then writing the text replaces the file. -/
theorem replaced_of_keep (hext : path.extension? = some (Text.bytes "js".toList))
    (hread : tree.readText path = .ok source) (hkeep : tree.keep backup path source = .ok kept)
    (hwrite : kept.write path text.utf8 = .ok written) :
    Replaced tree written path source text backup := by
  rw [readText_eq_ok_iff] at hread
  have hsame := sameDirectories_of_write hwrite
  unfold keep at hkeep
  cases backup with
  | false =>
      obtain rfl : tree = kept := Except.ok.inj hkeep
      exact {
        text := read_of_write hwrite
        kept := fun h => by contradiction
        untouched := fun _ => read_backup_of_write hext hread hwrite
        beside := fun h => by contradiction
        others := fun key hkey _ => get?_of_write hwrite hkey
        rooted := hsame.rooted
        workingDirectory := hsame.workingDirectory }
  | true =>
      rw [if_pos rfl] at hkeep
      have hsame' := sameDirectories_of_write hkeep
      obtain ⟨directory, hresolve, hbeside⟩ := siblings_of_read hext hread
      obtain ⟨place, hplace, -, -⟩ := write_eq_ok_iff.1 hkeep
      obtain rfl := Place.within.inj (hbeside _ hplace)
      have hpath := resolve_of_sameDirectories hsame' hresolve
      have hbackup := resolve_of_sameDirectories hsame' hplace
      have hne : kept.resolve path ≠ .ok (.within (directory ++ [path.backupName])) := by
        rw [hpath, ← hresolve]
        exact resolve_backup_ne hext hread hplace
      exact {
        text := read_of_write hwrite
        kept := fun _ => (read_of_write_of_ne hwrite hbackup hne).trans (read_of_write hkeep)
        untouched := fun h => by contradiction
        beside := fun _ => ⟨directory, hresolve, hplace⟩
        others := fun key hkey hkey' =>
          (get?_of_write hwrite (by rwa [hpath, ← hresolve])).trans (get?_of_write hkeep (hkey' rfl))
        rooted := hsame.rooted.trans hsame'.rooted
        workingDirectory := hsame.workingDirectory.trans hsame'.workingDirectory }

end FileTree

/-! ### All or nothing -/

namespace Pipeline

/-- The rules that a run reports are those that it was given, in their order. -/
theorem ruleNames_of_applyRules {policy : UnmatchedPolicy} {context : DocumentContext} {rules : List Rule} {t : Text}
    {document : PublishedDocument} (h : (applyRules policy context rules t).outcome = .ok document) :
    document.rules.map Prod.fst = rules.map Rule.name := by
  induction rules generalizing t document with
  | nil =>
      obtain rfl := Except.ok.inj h
      rfl
  | cons rule rules ih =>
      unfold applyRules at h
      dsimp only at h
      split at h
      · contradiction
      · simp only [Logged.after, Logged.map] at h
        cases hrest : (applyRules policy context rules (rule.apply context t).text).outcome with
        | error error => simp [hrest, Except.map] at h
        | ok below =>
            simp only [hrest, Except.map, Except.ok.injEq] at h
            rw [← h, List.map_cons, List.map_cons, ih hrest]

theorem ruleNames_of_publishDocument {pipeline : Pipeline} {source stem : Text} {document : PublishedDocument}
    (h : (pipeline.publishDocument source stem).outcome = .ok document) :
    document.rules.map Prod.fst = pipeline.ruleNames := by
  obtain ⟨start, below, -, hrun, rfl⟩ := exists_of_publishDocument h
  have hnames := ruleNames_of_applyRules hrun
  exact hnames

end Pipeline

namespace FileTree

/-- A script is published exactly if it can be read, its text can be published and its backup can be kept. -/
theorem exists_published_iff (tree : FileTree) (time : Text) (pipeline : Pipeline) (path : Path) :
    (∃ report, (tree.publish time pipeline path).1 = .ok (.published report)) ↔
      path.extension? = some (Text.bytes "js".toList) ∧ ∃ source document kept, tree.readText path = .ok source
        ∧ (pipeline.publishDocument source path.stemText).outcome = .ok document
        ∧ tree.keep pipeline.options.backup path source = .ok kept := by
  have hexit := fileExit_publish time pipeline path tree
  generalize tree.publish time pipeline path = published at hexit ⊢
  obtain ⟨outcome, left⟩ := published
  constructor
  · rintro ⟨report, hreport⟩
    dsimp only at hreport hexit
    subst hreport
    cases hexit with
    | replaced hext hread hrun hkeep hwrite => exact ⟨hext, _, _, _, hread, hrun, hkeep⟩
  · rintro ⟨hext, source, document, kept, hread, hrun, hkeep⟩
    obtain ⟨start, _, hstart, _⟩ := Pipeline.exists_of_publishDocument hrun
    have hsource : pipeline.source? source ≠ none := hstart ▸ Option.some_ne_none start
    cases hexit with
    | otherType hext' => exact absurd hext hext'
    | unreadable _ hread' =>
        rw [hread] at hread'
        contradiction
    | rejected _ hread' hsource' _ =>
        obtain rfl := Except.ok.inj (hread.symm.trans hread')
        exact absurd hsource' hsource
    | skipped _ hread' hsource' _ =>
        obtain rfl := Except.ok.inj (hread.symm.trans hread')
        exact absurd hsource' hsource
    | unwritten _ hread' _ hrun' =>
        obtain rfl := Except.ok.inj (hread.symm.trans hread')
        rw [hrun] at hrun'
        contradiction
    | unkept _ hread' _ hkeep' =>
        obtain rfl := Except.ok.inj (hread.symm.trans hread')
        rw [hkeep] at hkeep'
        contradiction
    | replaced _ _ _ _ _ => exact ⟨_, rfl⟩

/-- A script that can be read is published, unless the marker or a rule that finds nothing forbids it, if the backup
    can be written. -/
theorem exists_published {tree : FileTree} {time : Text} {pipeline : Pipeline} {path : Path} {source start : Text}
    (hext : path.extension? = some (Text.bytes "js".toList)) (hread : tree.readText path = .ok source)
    (hsource : pipeline.source? source = some start) (hpolicy : pipeline.options.onUnmatched ≠ .fail)
    (hkeep : pipeline.options.backup = true → ∃ kept, tree.write path.backup source.utf8 = .ok kept) :
    ∃ report, (tree.publish time pipeline path).1 = .ok (.published report) := by
  obtain ⟨document, hrun⟩ := Pipeline.exists_publishDocument hpolicy hsource path.stemText
  obtain ⟨kept, hkept⟩ : ∃ kept, tree.keep pipeline.options.backup path source = .ok kept := by
    rw [keep]
    split
    · rename_i hbackup
      exact hkeep hbackup
    · exact ⟨tree, rfl⟩
  exact (exists_published_iff tree time pipeline path).2 ⟨hext, source, document, kept, hread, hrun, hkept⟩

/-- A published script has been replaced by what its text is published as, and the report says so. -/
theorem replaced_of_published {tree : FileTree} {time : Text} {pipeline : Pipeline} {path : Path}
    {report : PublishReport} (h : (tree.publish time pipeline path).1 = .ok (.published report)) :
    ∃ source document, tree.readText path = .ok source
      ∧ (pipeline.publishDocument source path.stemText).outcome = .ok document
      ∧ Replaced tree (tree.publish time pipeline path).2 path source document.text pipeline.options.backup
      ∧ report = reportOf time pipeline path source document := by
  have hexit := fileExit_publish time pipeline path tree
  rw [h] at hexit
  generalize (tree.publish time pipeline path).2 = written at hexit ⊢
  cases hexit with
  | replaced hext hread hrun hkeep hwrite =>
      exact ⟨_, _, hread, hrun, replaced_of_keep hext hread hkeep hwrite, rfl⟩

/-- An export with one layer. -/
def layerText : Text := "// figure1hair2\nthis.addTween();".toList

/-- The name of this export. -/
def walkPath : Path := Text.bytes "walk.js".toList

/-- A working directory that holds this export. -/
def exportTree : FileTree :=
  ⟨[([walkPath], .file layerText.utf8)], false, []⟩

theorem readText_exportTree : exportTree.readText walkPath = .ok layerText :=
  readText_eq_ok_iff.2 (read_eq_ok_iff.2 ⟨[walkPath], rfl, rfl⟩)

theorem write_backup_exportTree : exportTree.write walkPath.backup layerText.utf8
    = .ok (exportTree.set [Text.bytes "walk.orig.js".toList] (.file layerText.utf8)) := by
  have hfree : exportTree.get? [Text.bytes "walk.orig.js".toList] ≠ some .directory := nofun
  exact write_eq_ok_iff.2 ⟨[Text.bytes "walk.orig.js".toList], rfl, hfree, rfl⟩

end FileTree

end CanvasExport
