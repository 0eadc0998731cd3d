/-
Module: CanvasExport.Proofs.Publish.Exit
Layer: Proofs
Purpose: How publishing a file can end. Every ending is listed with the tree that it leaves: all but one leave the
  tree as it was, and the last has written the backup, if that is asked for, and then the file. The backup makes and
  replaces no directory and has another name, so the file can still be found and replaced after it.
Main exports: FileTree.readText, FileTree.keep, FileTree.publish, FileExit, fileExit_publish, FileExit.eq_of_error,
  FileExit.eq_of_skipped
-/
import CanvasExport.Proofs.File.Tree
import CanvasExport.Proofs.Publish.Run
import CanvasExport.Publish.File

namespace CanvasExport

/-! ### What the parts of publishing do to a tree -/

namespace FileTree

/-- The text of the file at a path. -/
def readText (tree : FileTree) (p : Path) : Except FileError Text :=
  match tree.read p with
  | .error error => .error error
  | .ok bytes =>
    match Text.ofUtf8? bytes with
    | some text => .ok text
    | none => .error .notText

/-- The text that is read is what the bytes of the file are the bytes of. -/
theorem readText_eq_ok_iff {tree : FileTree} {p : Path} {t : Text} :
    tree.readText p = .ok t ↔ tree.read p = .ok t.utf8 := by
  unfold readText
  cases tree.read p with
  | error error => exact iff_of_false (fun h => by contradiction) (fun h => by contradiction)
  | ok bytes =>
      rw [Except.ok.injEq]
      dsimp only
      cases htext : Text.ofUtf8? bytes with
      | none =>
          refine iff_of_false (fun h => by contradiction) ?_
          rintro rfl
          rw [Text.ofUtf8?_utf8] at htext
          contradiction
      | some text =>
          rw [Except.ok.injEq]
          constructor
          · rintro rfl
            exact (Text.utf8_of_ofUtf8? htext).symm
          · rintro rfl
            rw [Text.ofUtf8?_utf8] at htext
            exact (Option.some.inj htext).symm

/-- The tree with the source kept at the backup path, if that is asked for. -/
def keep (tree : FileTree) (backup : Bool) (p : Path) (source : Text) : Except FileError FileTree :=
  if backup then tree.write p.backup source.utf8 else .ok tree

theorem readText_disk (tree : FileTree) (time : Text) (p : Path) :
    (disk time).readText p tree = (tree.readText p, tree) := by
  simp only [Disk.readText, disk, readText, bind, StateT.bind]
  cases tree.read p with
  | error error => rfl
  | ok bytes =>
      dsimp only
      cases Text.ofUtf8? bytes with
      | none => rfl
      | some text => rfl

theorem loadPalette_disk (tree : FileTree) (time : Text) (p : Path) :
    (loadPalette (disk time) p tree).2 = tree := by
  have hread := tree.readText_disk time p
  simp only [loadPalette, bind, StateT.bind, hread]
  cases tree.readText p with
  | error error => rfl
  | ok text => rfl

variable (tree : FileTree) (time : Text) (pipeline : Pipeline) (path : Path) (source : Text)

/-- Keeping the source leaves the tree with the backup, or as it was. -/
theorem writeBackup_disk (options : Options) :
    writeBackup (disk time) options path source tree =
      match tree.keep options.backup path source with
      | .error error => (.error error, tree)
      | .ok kept => (.ok (if options.backup then some path.backup else none), kept) := by
  unfold writeBackup keep
  cases options.backup with
  | false => rfl
  | true =>
      simp only [if_true, bind, StateT.bind, disk]
      cases tree.write path.backup source.utf8 with
      | error error => rfl
      | ok kept => rfl

/-- The extension decides before anything is read. -/
theorem publishFile_disk :
    publishFile (disk time) pipeline path tree =
      if path.extension? ≠ some (Text.bytes "js".toList) then
        (.of (.error (.unsupportedFileType path)), tree)
      else
        match tree.readText path with
        | .error error => (.of (.error (.file error)), tree)
        | .ok source => publishText (disk time) pipeline path source tree := by
  unfold publishFile
  split
  · rfl
  · have hread := tree.readText_disk time path
    simp only [bind, StateT.bind, hread]
    cases tree.readText path with
    | error error => rfl
    | ok source => rfl

/-- The marker decides before any rule runs, and the rules decide before anything is written. -/
theorem publishText_disk :
    publishText (disk time) pipeline path source tree =
      if isPublished source && !pipeline.options.force then
        match pipeline.options.onAlreadyPublished with
        | .fail => (.of (.error .alreadyPublished), tree)
        | .skip => (⟨[.alreadyPublished], .ok (.skipped path)⟩, tree)
      else
        let run := pipeline.publishDocument source path.stemText
        match run.outcome with
        | .error error => (⟨run.events, .error error⟩, tree)
        | .ok document =>
          let written := writePublished (disk time) pipeline path source document tree
          (written.1.after run.events, written.2) := by
  unfold publishText
  split
  · cases pipeline.options.onAlreadyPublished <;> rfl
  · dsimp only
    cases (pipeline.publishDocument source path.stemText).outcome with
    | error error => rfl
    | ok document => rfl

end FileTree

/-! ### How publishing a file can end -/

/-- The report on a document that has been published in a file. -/
def reportOf (time : Text) (pipeline : Pipeline) (path : Path) (source : Text) (document : PublishedDocument) :
    PublishReport where
  path := path
  stem := path.stemText
  variant := pipeline.options.variant
  rules := document.rules
  backup := if pipeline.options.backup then some path.backup else none
  inputSha256 := sha256Hex source.utf8
  outputSha256 := sha256Hex document.text.utf8
  publishedAt := time

/-- How publishing the file at a path can end, and the tree that it leaves. -/
inductive FileExit (time : Text) (pipeline : Pipeline) (path : Path) (tree : FileTree) :
    Except PublishError PublishOutcome → FileTree → Prop
  | otherType (hext : path.extension? ≠ some (Text.bytes "js".toList)) :
      FileExit time pipeline path tree (.error (.unsupportedFileType path)) tree
  | unreadable {error : FileError} (hext : path.extension? = some (Text.bytes "js".toList))
      (hread : tree.readText path = .error error) :
      FileExit time pipeline path tree (.error (.file error)) tree
  | rejected {source : Text} (hext : path.extension? = some (Text.bytes "js".toList))
      (hread : tree.readText path = .ok source)
      (hsource : pipeline.source? source = none) (hpolicy : pipeline.options.onAlreadyPublished = .fail) :
      FileExit time pipeline path tree (.error .alreadyPublished) tree
  | skipped {source : Text} (hext : path.extension? = some (Text.bytes "js".toList))
      (hread : tree.readText path = .ok source)
      (hsource : pipeline.source? source = none) (hpolicy : pipeline.options.onAlreadyPublished = .skip) :
      FileExit time pipeline path tree (.ok (.skipped path)) tree
  | unwritten {source : Text} {error : PublishError} (hext : path.extension? = some (Text.bytes "js".toList))
      (hread : tree.readText path = .ok source) (hsource : pipeline.source? source ≠ none)
      (hrun : (pipeline.publishDocument source path.stemText).outcome = .error error) :
      FileExit time pipeline path tree (.error error) tree
  | unkept {source : Text} {document : PublishedDocument} {error : FileError}
      (hext : path.extension? = some (Text.bytes "js".toList)) (hread : tree.readText path = .ok source)
      (hrun : (pipeline.publishDocument source path.stemText).outcome = .ok document)
      (hkeep : tree.keep pipeline.options.backup path source = .error error) :
      FileExit time pipeline path tree (.error (.file error)) tree
  | replaced {source : Text} {document : PublishedDocument} {kept written : FileTree}
      (hext : path.extension? = some (Text.bytes "js".toList)) (hread : tree.readText path = .ok source)
      (hrun : (pipeline.publishDocument source path.stemText).outcome = .ok document)
      (hkeep : tree.keep pipeline.options.backup path source = .ok kept)
      (hwrite : kept.write path document.text.utf8 = .ok written) :
      FileExit time pipeline path tree (.ok (.published (reportOf time pipeline path source document))) written

theorem Pipeline.source?_eq_none_iff {pipeline : Pipeline} {document : Text} :
    pipeline.source? document = none ↔ (isPublished document && !pipeline.options.force) = true := by
  unfold source?
  cases isPublished document <;> cases pipeline.options.force <;> simp

/-- A document that is published is what the rules make of its source, with the marker. -/
theorem Pipeline.exists_of_publishDocument {pipeline : Pipeline} {source stem : Text} {document : PublishedDocument}
    (h : (pipeline.publishDocument source stem).outcome = .ok document) :
    ∃ start below, pipeline.source? source = some start
      ∧ (applyRules pipeline.options.onUnmatched (.ofDocument stem start) pipeline.rules start).outcome = .ok below
      ∧ document = { below with text := mark (LineEnding.ofText start) below.text } := by
  unfold publishDocument at h
  cases hsource : pipeline.source? source with
  | none => simp [hsource, Logged.of] at h
  | some start =>
      simp only [hsource, Logged.map] at h
      cases hrun : (applyRules pipeline.options.onUnmatched (.ofDocument stem start) pipeline.rules start).outcome with
      | error error => simp [hrun, Except.map] at h
      | ok below =>
          simp only [hrun, Except.map, Except.ok.injEq] at h
          exact ⟨start, below, rfl, hrun, h.symm⟩

namespace FileTree

section Written

variable (tree : FileTree) (time : Text) (pipeline : Pipeline) (path : Path) (source : Text)
  (document : PublishedDocument)

theorem writePublished_of_unkept {error : FileError}
    (hkeep : tree.keep pipeline.options.backup path source = .error error) :
    writePublished (disk time) pipeline path source document tree = (.of (.error (.file error)), tree) := by
  simp only [writePublished, bind, StateT.bind, tree.writeBackup_disk, hkeep]
  rfl

theorem writePublished_of_write {kept written : FileTree}
    (hkeep : tree.keep pipeline.options.backup path source = .ok kept)
    (hwrite : kept.write path document.text.utf8 = .ok written) :
    (writePublished (disk time) pipeline path source document tree).1.outcome
        = .ok (.published (reportOf time pipeline path source document))
      ∧ (writePublished (disk time) pipeline path source document tree).2 = written := by
  have hdisk : (disk time).write path document.text.utf8 kept = (.ok (), written) := by
    simp only [disk, hwrite]
  simp only [writePublished, bind, StateT.bind, tree.writeBackup_disk, hkeep, hdisk]
  exact ⟨rfl, rfl⟩

end Written

variable {tree kept : FileTree} {path : Path} {source : Text} {backup : Bool}

/-- After the backup the file still holds what it held. -/
theorem read_of_keep (hext : path.extension? = some (Text.bytes "js".toList)) {content : ByteArray}
    (hread : tree.read path = .ok content) (hkeep : tree.keep backup path source = .ok kept) :
    kept.read path = .ok content := by
  unfold keep at hkeep
  split at hkeep
  · obtain ⟨directory, hresolve, hbeside⟩ := siblings_of_read hext hread
    obtain ⟨key, hkey, hentry⟩ := read_eq_ok_iff.1 hread
    have hsame := sameDirectories_of_write hkeep
    obtain ⟨place, hplace, -, rfl⟩ := write_eq_ok_iff.1 hkeep
    obtain rfl := Place.within.inj (Except.ok.inj (hkey.symm.trans hresolve))
    obtain rfl := Place.within.inj (hbeside _ hplace)
    refine read_eq_ok_iff.2 ⟨_, resolve_of_sameDirectories hsame hkey, ?_⟩
    rw [get?_set_of_ne tree _ fun heq => backupName_ne path (List.cons.inj (List.append_cancel_left heq)).1.symm]
    exact hentry
  · exact Except.ok.inj hkeep ▸ hread

end FileTree

/-- Publishing the file at a path: what comes of it, and the tree afterwards. -/
def FileTree.publish (tree : FileTree) (time : Text) (pipeline : Pipeline) (path : Path) :
    Except PublishError PublishOutcome × FileTree :=
  let run := publishFile (disk time) pipeline path tree
  (run.1.outcome, run.2)

/-- Publishing a file ends in one of these ways. -/
theorem fileExit_publish (time : Text) (pipeline : Pipeline) (path : Path) (tree : FileTree) :
    FileExit time pipeline path tree (tree.publish time pipeline path).1 (tree.publish time pipeline path).2 := by
  unfold FileTree.publish
  -- The checks in their order; each one that fails is an ending of its own.
  rw [tree.publishFile_disk]
  split
  · rename_i hext
    exact .otherType hext
  rename_i hext
  rw [ne_eq, Decidable.not_not] at hext
  cases hread : tree.readText path with
  | error error => exact .unreadable hext hread
  | ok source =>
      dsimp only
      rw [tree.publishText_disk]
      split
      · rename_i hpublished
        have hsource := Pipeline.source?_eq_none_iff.2 hpublished
        cases hpolicy : pipeline.options.onAlreadyPublished with
        | fail => exact .rejected hext hread hsource hpolicy
        | skip => exact .skipped hext hread hsource hpolicy
      · rename_i hpublished
        have hsource : pipeline.source? source ≠ none := mt Pipeline.source?_eq_none_iff.1 hpublished
        dsimp only
        cases hrun : (pipeline.publishDocument source path.stemText).outcome with
        | error error => exact .unwritten hext hread hsource hrun
        | ok document =>
            cases hkeep : tree.keep pipeline.options.backup path source with
            | error error =>
                simp only [tree.writePublished_of_unkept time pipeline path source document hkeep]
                exact .unkept hext hread hrun hkeep
            | ok kept =>
                have hkept := FileTree.read_of_keep hext (FileTree.readText_eq_ok_iff.1 hread) hkeep
                obtain ⟨written, hwrite⟩ := FileTree.exists_write_of_read hkept document.text.utf8
                obtain ⟨houtcome, htree⟩ :=
                  tree.writePublished_of_write time pipeline path source document hkeep hwrite
                simp only [Logged.after, houtcome, htree]
                exact .replaced hext hread hrun hkeep hwrite

namespace FileExit

variable {time : Text} {pipeline : Pipeline} {path : Path} {tree left : FileTree}

/-- A failure leaves the tree as it was. -/
theorem eq_of_error {error : PublishError} (h : FileExit time pipeline path tree (.error error) left) : left = tree := by
  cases h with
  | otherType _ => rfl
  | unreadable _ _ => rfl
  | rejected _ _ _ _ => rfl
  | unwritten _ _ _ _ => rfl
  | unkept _ _ _ _ => rfl

/-- Skipping a script leaves the tree as it was. -/
theorem eq_of_skipped {skipped : Path} (h : FileExit time pipeline path tree (.ok (.skipped skipped)) left) :
    left = tree := by
  cases h with
  | skipped _ _ _ _ => rfl

end FileExit

namespace FileTree

variable {tree : FileTree} {time : Text} {pipeline : Pipeline} {path : Path}

theorem publish_eq_of_error {error : PublishError} (h : (tree.publish time pipeline path).1 = .error error) :
    (tree.publish time pipeline path).2 = tree :=
  FileExit.eq_of_error (h ▸ fileExit_publish time pipeline path tree)

theorem publish_eq_of_skipped {skipped : Path} (h : (tree.publish time pipeline path).1 = .ok (.skipped skipped)) :
    (tree.publish time pipeline path).2 = tree :=
  FileExit.eq_of_skipped (h ▸ fileExit_publish time pipeline path tree)

end FileTree

end CanvasExport
