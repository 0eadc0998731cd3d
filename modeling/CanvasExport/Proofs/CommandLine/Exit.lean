/-
Module: CanvasExport.Proofs.CommandLine.Exit
Layer: Proofs
Purpose: What the exit code of the program tells of the files. The program touches no file but by publishing the one
  that it was given, and then it prints; so it changes nothing unless its exit code is zero, except that a report that
  has no JSON form cannot be printed when the file has already been published. That is so for the paths that are not
  text, and for no others.
Main exports: PublishOutcome.toJson_reportOf, CommandLine.run_disk, CommandLine.tree_of_exitCode,
  CommandLine.published_of_exitCode, FileTree.publish_allOrNothing, FileTree.not_allOrNothing
-/
import CanvasExport.CommandLine.Run
import CanvasExport.Proofs.Publish.File

namespace CanvasExport

open Text (IsUtf8)

/-! ### Reports that can be printed -/

theorem pathToJson_of_isUtf8 {path : Path} (h : IsUtf8 path) : ∃ value, pathToJson path = .ok value := by
  obtain ⟨t, rfl⟩ := h
  exact ⟨.string t, by rw [pathToJson, Text.ofBytes?_bytes]⟩

theorem pathToJson_of_not_isUtf8 {path : Path} (h : ¬ IsUtf8 path) : pathToJson path = .error .pathNotText := by
  rw [pathToJson, Text.ofBytes?_eq_none_iff.2 h]

namespace PublishOutcome

variable {time : Text} {pipeline : Pipeline} {path : Path} {source : Text} {document : PublishedDocument}

/-- The report on a path that is text has a JSON form, since the backup of the path is text as well. -/
theorem toJson_reportOf (hext : path.extension? = some (Text.bytes "js".toList)) (h : IsUtf8 path) :
    ∃ value, toJson (.published (reportOf time pipeline path source document)) = .ok value := by
  obtain ⟨name, hname⟩ := pathToJson_of_isUtf8 h
  obtain ⟨kept, hkept⟩ : ∃ kept, (if pipeline.options.backup then some path.backup else none).elim
      (.ok .null) pathToJson = .ok kept := by
    split
    · exact pathToJson_of_isUtf8 (Path.isUtf8_backup hext h)
    · exact ⟨.null, rfl⟩
  simp only [toJson, reportOf, hname, hkept, bind, Except.bind]
  exact ⟨_, rfl⟩

theorem toJson_reportOf_of_not_isUtf8 (h : ¬ IsUtf8 path) :
    toJson (.published (reportOf time pipeline path source document)) = .error .pathNotText := by
  simp only [toJson, reportOf, pathToJson_of_not_isUtf8 h, bind, Except.bind]

end PublishOutcome

namespace CommandLine

variable {tree : FileTree} {time : Text} {request : Request} {pipeline : Pipeline} {file : Path}
  {report : PublishReport} {events : List Event}

/-- A published file is printed, unless its report is asked for as JSON and its path is not text. -/
theorem result_of_published (hpublish : (tree.publish time pipeline file).1 = .ok (.published report)) :
    ((request.json = true → IsUtf8 file) ∧ (request.result ⟨events, .ok (.published report)⟩).exitCode = 0)
      ∨ (request.json = true ∧ ¬ IsUtf8 file
        ∧ (request.result ⟨events, .ok (.published report)⟩).exitCode = 1
        ∧ (request.result ⟨events, .ok (.published report)⟩).failure = some .pathNotText) := by
  obtain ⟨hext, -⟩ := (tree.exists_published_iff time pipeline file).1 ⟨report, hpublish⟩
  obtain ⟨source, document, -, -, -, rfl⟩ := FileTree.replaced_of_published hpublish
  simp only [Request.result, Except.bind, outcomeText]
  cases hjson : request.json with
  | false => exact .inl ⟨nofun, rfl⟩
  | true =>
      rw [if_pos rfl]
      by_cases htext : IsUtf8 file
      · obtain ⟨value, hvalue⟩ := PublishOutcome.toJson_reportOf hext htext
        rw [hvalue]
        exact .inl ⟨fun _ => htext, rfl⟩
      · rw [PublishOutcome.toJson_reportOf_of_not_isUtf8 htext]
        exact .inr ⟨rfl, htext, rfl, rfl⟩

end CommandLine

/-! ### What the program does to the tree -/

namespace CommandLine

variable (tree : FileTree) (time : Text)

/-- Reading the palette of a request leaves the tree as it is. -/
theorem Request.loadPalette_disk (request : Request) :
    (request.loadPalette (FileTree.disk time) tree).2 = tree := by
  unfold Request.loadPalette
  cases request.palette with
  | none => rfl
  | some path => exact tree.loadPalette_disk time path

/-- A request fails before anything is written, or publishes its file by the pipeline of its palette. -/
theorem Request.publish_disk (request : Request) :
    (∃ error, request.publish (FileTree.disk time) tree = (.of (.error error), tree))
      ∨ ∃ file palette pipeline, request.file = some file
        ∧ Pipeline.create palette request.options = .ok pipeline
        ∧ request.publish (FileTree.disk time) tree = publishFile (FileTree.disk time) pipeline file tree := by
  unfold Request.publish
  cases hfile : request.file with
  | none => exact .inl ⟨_, rfl⟩
  | some file =>
      have hpalette := Request.loadPalette_disk tree time request
      simp only [bind, StateT.bind]
      generalize request.loadPalette (FileTree.disk time) tree = loaded at hpalette ⊢
      obtain ⟨palette, reached⟩ := loaded
      obtain rfl : reached = tree := hpalette
      cases palette with
      | error error => exact .inl ⟨error, rfl⟩
      | ok palette =>
          simp only [Except.bind]
          cases hcreate : Pipeline.create palette request.options with
          | error error => exact .inl ⟨error, rfl⟩
          | ok pipeline => exact .inr ⟨file, palette, pipeline, rfl, hcreate, rfl⟩

/-- A run of the program leaves the tree as it was, or publishes the file that it was given and then prints. -/
theorem run_disk (arguments : List Bytes) :
    (run (FileTree.disk time) arguments tree).2 = tree
      ∨ ∃ request file palette pipeline report events, parse arguments = .run request ∧ request.file = some file
        ∧ Pipeline.create palette request.options = .ok pipeline
        ∧ tree.publish time pipeline file
          = (.ok (.published report), (run (FileTree.disk time) arguments tree).2)
        ∧ (run (FileTree.disk time) arguments tree).1 = request.result ⟨events, .ok (.published report)⟩ := by
  unfold run
  cases hparse : parse arguments with
  | shortHelp => exact .inl rfl
  | longHelp => exact .inl rfl
  | version => exact .inl rfl
  | usage => exact .inl rfl
  | run request =>
      simp only [bind, StateT.bind]
      rcases request.publish_disk tree time with ⟨error, hpublish⟩ | ⟨file, palette, pipeline, hfile, hcreate, hpublish⟩
      · rw [hpublish]
        exact .inl rfl
      · rw [hpublish]
        have hexit := fileExit_publish time pipeline file tree
        have hpublished : tree.publish time pipeline file =
          ((publishFile (FileTree.disk time) pipeline file tree).1.outcome,
            (publishFile (FileTree.disk time) pipeline file tree).2) := rfl
        rw [hpublished] at hexit
        generalize publishFile (FileTree.disk time) pipeline file tree = published at hexit hpublished ⊢
        obtain ⟨⟨events, outcome⟩, reached⟩ := published
        cases outcome with
        | error error => exact .inl (FileExit.eq_of_error hexit)
        | ok outcome =>
            cases outcome with
            | skipped skipped => exact .inl (FileExit.eq_of_skipped hexit)
            | published report =>
                exact .inr ⟨request, file, palette, pipeline, report, events, rfl, hfile, hcreate, hpublished, rfl⟩

/-- The program changes nothing unless its exit code is zero, except where it has published a file whose report it
    cannot print. -/
theorem tree_of_exitCode (arguments : List Bytes)
    (h : (run (FileTree.disk time) arguments tree).1.exitCode ≠ 0) :
    (run (FileTree.disk time) arguments tree).2 = tree
      ∨ ∃ request file palette pipeline report, parse arguments = .run request ∧ request.file = some file
        ∧ request.json = true ∧ ¬ IsUtf8 file ∧ Pipeline.create palette request.options = .ok pipeline
        ∧ tree.publish time pipeline file
          = (.ok (.published report), (run (FileTree.disk time) arguments tree).2)
        ∧ (run (FileTree.disk time) arguments tree).1.exitCode = 1
        ∧ (run (FileTree.disk time) arguments tree).1.failure = some .pathNotText := by
  rcases run_disk tree time arguments with
    hsame | ⟨request, file, palette, pipeline, report, events, hparse, hfile, hcreate, hpublish, hresult⟩
  · exact .inl hsame
  · rw [hresult] at h ⊢
    rcases result_of_published (congrArg Prod.fst hpublish) with ⟨-, hcode⟩ | ⟨hjson, htext, hcode, hfailure⟩
    · exact absurd hcode h
    · exact .inr ⟨request, file, palette, pipeline, report, hparse, hfile, hjson, htext, hcreate, hpublish, hcode,
        hfailure⟩

/-- With exit code zero the program has changed nothing, or it has published the file that it was given. -/
theorem published_of_exitCode (arguments : List Bytes)
    (h : (run (FileTree.disk time) arguments tree).1.exitCode = 0) :
    (run (FileTree.disk time) arguments tree).2 = tree
      ∨ ∃ request file palette pipeline report, parse arguments = .run request ∧ request.file = some file
        ∧ (request.json = true → IsUtf8 file) ∧ Pipeline.create palette request.options = .ok pipeline
        ∧ tree.publish time pipeline file
          = (.ok (.published report), (run (FileTree.disk time) arguments tree).2) := by
  rcases run_disk tree time arguments with
    hsame | ⟨request, file, palette, pipeline, report, events, hparse, hfile, hcreate, hpublish, hresult⟩
  · exact .inl hsame
  · rw [hresult] at h
    rcases result_of_published (congrArg Prod.fst hpublish) with ⟨htext, -⟩ | ⟨-, -, hcode, -⟩
    · exact .inr ⟨request, file, palette, pipeline, report, hparse, hfile, htext, hcreate, hpublish⟩
    · exact absurd (hcode.symm.trans h) Nat.one_ne_zero

end CommandLine

namespace FileTree

/-- Publishing a file is all or nothing. If it fails or skips the file, the tree is as it was. If it publishes, which
    it does exactly if the script can be read, its text published and its backup kept, the file is replaced by what
    its text is published as and nothing else changes but the backup; the report carries the counts in the order of
    the rules, the backup path if there is a backup, and the digests of what was read and of what is now there. The
    program changes nothing but by publishing the file that it was given. Its exit code is zero then, unless the report
    is asked for as JSON and the path is not text; with any other exit code nothing has changed. -/
theorem publish_allOrNothing (tree : FileTree) (time : Text) (pipeline : Pipeline) (path : Path) :
    (∀ error, (tree.publish time pipeline path).1 = .error error → (tree.publish time pipeline path).2 = tree)
    ∧ (∀ skipped, (tree.publish time pipeline path).1 = .ok (.skipped skipped) →
        (tree.publish time pipeline path).2 = tree)
    ∧ (∀ report, (tree.publish time pipeline path).1 = .ok (.published report) →
        ∃ source document written, tree.readText path = .ok source
          ∧ (pipeline.publishDocument source path.stemText).outcome = .ok document
          ∧ Replaced tree (tree.publish time pipeline path).2 path source document.text pipeline.options.backup
          ∧ (tree.publish time pipeline path).2.read path = .ok written
          ∧ document.rules.map Prod.fst = pipeline.ruleNames
          ∧ report = {
              path := path
              stem := path.stemText
              variant := pipeline.options.variant
              rules := document.rules
              backup := if pipeline.options.backup then some path.backup else none
              inputSha256 := sha256Hex source.utf8
              outputSha256 := sha256Hex written
              publishedAt := time })
    ∧ ((∃ report, (tree.publish time pipeline path).1 = .ok (.published report)) ↔
        path.extension? = some (Text.bytes "js".toList) ∧ ∃ source document kept, tree.readText path = .ok source
          ∧ (pipeline.publishDocument source path.stemText).outcome = .ok document
          ∧ tree.keep pipeline.options.backup path source = .ok kept)
    ∧ ∀ arguments,
        ((CommandLine.run (disk time) arguments tree).1.exitCode ≠ 0 →
          (CommandLine.run (disk time) arguments tree).2 = tree
            ∨ ∃ request file palette pipeline report, CommandLine.parse arguments = .run request
              ∧ request.file = some file ∧ request.json = true ∧ ¬ IsUtf8 file
              ∧ Pipeline.create palette request.options = .ok pipeline
              ∧ tree.publish time pipeline file
                = (.ok (.published report), (CommandLine.run (disk time) arguments tree).2)
              ∧ (CommandLine.run (disk time) arguments tree).1.exitCode = 1
              ∧ (CommandLine.run (disk time) arguments tree).1.failure = some .pathNotText)
        ∧ ((CommandLine.run (disk time) arguments tree).1.exitCode = 0 →
          (CommandLine.run (disk time) arguments tree).2 = tree
            ∨ ∃ request file palette pipeline report, CommandLine.parse arguments = .run request
              ∧ request.file = some file ∧ (request.json = true → IsUtf8 file)
              ∧ Pipeline.create palette request.options = .ok pipeline
              ∧ tree.publish time pipeline file
                = (.ok (.published report), (CommandLine.run (disk time) arguments tree).2)) := by
  refine ⟨fun error h => publish_eq_of_error h, fun skipped h => publish_eq_of_skipped h, fun report h => ?_,
    tree.exists_published_iff time pipeline path, fun arguments =>
      ⟨CommandLine.tree_of_exitCode tree time arguments, CommandLine.published_of_exitCode tree time arguments⟩⟩
  obtain ⟨source, document, hread, hrun, hreplaced, hreport⟩ := replaced_of_published h
  exact ⟨source, document, document.text.utf8, hread, hrun, hreplaced, hreplaced.text,
    Pipeline.ruleNames_of_publishDocument hrun, hreport⟩

/-- What the built-in palette publishes the export as. -/
def publishedText : Text :=
  ("// figure1hair2\nif (this.assetPalette.figure == 1 && this.assetPalette.hair == 2)this.addTween();\n"
    ++ "// Published.").toList

/-- The built-in palette publishes the export, and its text is kept. -/
theorem publish_allOrNothing_exportTree :
    (exportTree.publish [] ⟨.standard, Rule.listFor .standard .aliased true⟩ walkPath).1 = .ok (.published {
        path := Text.bytes "walk.js".toList
        stem := "walk".toList
        variant := .aliased
        rules := [(.paletteAlias, 0), (.paletteColors, 0), (.layerVisibility, 1), (.assetPath, 0), (.fileIdLookup, 0)]
        backup := some (Text.bytes "walk.orig.js".toList)
        inputSha256 := "ce91b599dff752e7f793e41ad3eabd6245d65ae53f079087b144ad9bae9f7000".toList
        outputSha256 := "a6588399489a52543841cc77618b99f13776f90b1b542e232f0f8459bb0b892b".toList
        publishedAt := [] })
      ∧ (exportTree.publish [] ⟨.standard, Rule.listFor .standard .aliased true⟩ walkPath).2.read walkPath
        = .ok publishedText.utf8
      ∧ (exportTree.publish [] ⟨.standard, Rule.listFor .standard .aliased true⟩ walkPath).2.read
        (Text.bytes "walk.orig.js".toList) = .ok layerText.utf8 := by
  obtain ⟨report, hpublished⟩ : ∃ report,
      (exportTree.publish [] ⟨.standard, Rule.listFor .standard .aliased true⟩ walkPath).1
        = .ok (.published report) :=
    exists_published rfl readText_exportTree rfl nofun fun _ => ⟨_, write_backup_exportTree⟩
  obtain ⟨-, -, hreport, -⟩ :=
    publish_allOrNothing exportTree [] ⟨.standard, Rule.listFor .standard .aliased true⟩ walkPath
  obtain ⟨source, document, written, hread, hrun, hreplaced, hwritten, -, rfl⟩ := hreport report hpublished
  obtain rfl := Except.ok.inj (readText_exportTree.symm.trans hread)
  have hdocument : (Pipeline.publishDocument ⟨.standard, Rule.listFor .standard .aliased true⟩ layerText
      walkPath.stemText).outcome = .ok ⟨publishedText, [(.paletteAlias, 0), (.paletteColors, 0),
        (.layerVisibility, 1), (.assetPath, 0), (.fileIdLookup, 0)]⟩ := by decide +kernel
  obtain rfl := Except.ok.inj (hrun.symm.trans hdocument)
  obtain rfl := Except.ok.inj (hwritten.symm.trans hreplaced.text)
  have hinput : sha256Hex layerText.utf8
      = "ce91b599dff752e7f793e41ad3eabd6245d65ae53f079087b144ad9bae9f7000".toList := by decide +kernel
  have houtput : sha256Hex publishedText.utf8
      = "a6588399489a52543841cc77618b99f13776f90b1b542e232f0f8459bb0b892b".toList := by decide +kernel
  rw [hinput, houtput] at hpublished
  exact ⟨hpublished, hwritten, hreplaced.kept rfl⟩

/-- A script whose name is not text. -/
def strayPath : Path := 0xFF :: Text.bytes ".js".toList

/-- A working directory that holds the export under this name. -/
def strayTree : FileTree :=
  ⟨[([strayPath], .file layerText.utf8)], false, []⟩

/-- Asked for the report as JSON, the program publishes this script, keeps its text and fails. -/
theorem run_strayTree :
    (CommandLine.run (disk []) [Text.bytes "--json".toList, strayPath] strayTree).1.exitCode = 1
      ∧ (CommandLine.run (disk []) [Text.bytes "--json".toList, strayPath] strayTree).1.failure = some .pathNotText
      ∧ (CommandLine.run (disk []) [Text.bytes "--json".toList, strayPath] strayTree).2.readText strayPath
        = .ok publishedText
      ∧ (CommandLine.run (disk []) [Text.bytes "--json".toList, strayPath] strayTree).2.readText
        (Text.bytes "\uFFFD.orig.js".toList) = .ok layerText := by
  decide +kernel

/-- A working directory that holds the export and a copy of it where its backup would be. -/
def copiedTree : FileTree :=
  exportTree.set [Text.bytes "walk.orig.js".toList] (.file layerText.utf8)

/-- The standard pipeline without a backup. -/
def unkeptPipeline : Pipeline :=
  ⟨{ Options.standard with backup := false }, Rule.listFor .standard .aliased true⟩

/-- A failing exit code does not tell that nothing has changed, and a backup path that holds the text does not tell
    that a backup was asked for: without one it is left as it was. -/
theorem not_allOrNothing :
    (¬ ∀ (tree : FileTree) (time : Text) (arguments : List Bytes),
        (CommandLine.run (disk time) arguments tree).1.exitCode ≠ 0 →
          (CommandLine.run (disk time) arguments tree).2 = tree)
      ∧ ¬ ∀ (tree : FileTree) (time : Text) (palette : Palette) (options : Options) (pipeline : Pipeline)
          (path : Path) (source : Text) (report : PublishReport), Pipeline.create palette options = .ok pipeline →
          tree.readText path = .ok source → (tree.publish time pipeline path).1 = .ok (.published report) →
            ((tree.publish time pipeline path).2.readText path.backup = .ok source
              ↔ pipeline.options.backup = true) := by
  refine ⟨fun hclaim => ?exitCode, fun hclaim => ?backup⟩
  case exitCode =>
    obtain ⟨hcode, -, htext, -⟩ := run_strayTree
    rw [hclaim strayTree [] _ (hcode ▸ Nat.one_ne_zero)] at htext
    have hheld : strayTree.readText strayPath = .ok layerText := by decide +kernel
    exact absurd (Except.ok.inj (hheld.symm.trans htext)) (by decide)
  case backup =>
    have hread : copiedTree.readText walkPath = .ok layerText := by decide +kernel
    have hheld : copiedTree.readText walkPath.backup = .ok layerText := by decide +kernel
    have hcreate : Pipeline.create .standard { Options.standard with backup := false } = .ok unkeptPipeline := by
      decide +kernel
    obtain ⟨report, hpublished⟩ : ∃ report,
        (copiedTree.publish [] unkeptPipeline walkPath).1 = .ok (.published report) :=
      exists_published rfl hread rfl nofun nofun
    obtain ⟨_, _, -, -, hreplaced, -⟩ := replaced_of_published hpublished
    rw [readText_eq_ok_iff, ← hreplaced.untouched rfl, ← readText_eq_ok_iff] at hheld
    exact absurd ((hclaim _ _ _ _ _ _ _ _ hcreate hread hpublished).1 hheld) (by decide)

end FileTree

end CanvasExport
