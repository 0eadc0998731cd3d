/-
Module: CanvasExport.Proofs.Publish.Backup
Layer: Proofs
Purpose: What the backup of a script holds after any run of calls that keep one. Every call that publishes replaces
  the backup by what the script held just before, and every other call leaves the tree as it is. So the text of the
  first export is kept until another call publishes; a call without force never does so again, but a forced call
  puts the published text in its place.
Main exports: FileTree.Call, FileTree.Call.run, FileTree.Call.Quiet, FileTree.Call.kept_of_run,
  FileTree.Call.not_kept_of_forced
-/
import CanvasExport.Proofs.Publish.File
import CanvasExport.Proofs.Publish.Marking

namespace CanvasExport.FileTree

/-- One call that publishes a script and keeps a backup: a pipeline that its palette allows, and the time. -/
structure Call where
  pipeline : Pipeline
  time : Text
  accepted : ∃ palette options, Pipeline.create palette options = .ok pipeline
  backup : pipeline.options.backup = true

namespace Call

variable {path : Path} {tree : FileTree} {call : Call}

/-- Whether the call publishes the script. -/
def Publishes (path : Path) (tree : FileTree) (call : Call) : Prop :=
  ∃ report, (tree.publish call.time call.pipeline path).1 = .ok (.published report)

/-- The tree after a call. -/
def next (path : Path) (tree : FileTree) (call : Call) : FileTree :=
  (tree.publish call.time call.pipeline path).2

/-- The tree after a run of calls on one script. -/
def run (path : Path) (tree : FileTree) (calls : List Call) : FileTree :=
  calls.foldl (next path) tree

/-- A run in which no call publishes. -/
def Quiet (path : Path) : FileTree → List Call → Prop
  | _, [] => True
  | tree, call :: calls => ¬ call.Publishes path tree ∧ Quiet path (next path tree call) calls

/-! ### One call -/

/-- A call that does not publish leaves the tree as it is. -/
theorem next_of_not_publishes (h : ¬ call.Publishes path tree) : next path tree call = tree := by
  cases houtcome : (tree.publish call.time call.pipeline path).1 with
  | error error => exact publish_eq_of_error houtcome
  | ok outcome =>
      cases outcome with
      | published report => exact absurd ⟨report, houtcome⟩ h
      | skipped skipped => exact publish_eq_of_skipped houtcome

/-- A published document ends with the marker. -/
theorem isPublished_of_publishDocument {pipeline : Pipeline} {source stem : Text} {document : PublishedDocument}
    (h : (pipeline.publishDocument source stem).outcome = .ok document) : isPublished document.text = true := by
  obtain ⟨start, below, -, -, rfl⟩ := Pipeline.exists_of_publishDocument h
  exact isPublished_mark _ _

/-- A call that publishes keeps what the script held, and leaves a published text in the script. -/
theorem kept_of_publishes (h : call.Publishes path tree) :
    ∃ source text, tree.readText path = .ok source ∧ (next path tree call).readText path.backup = .ok source
      ∧ (next path tree call).readText path = .ok text ∧ isPublished text = true := by
  obtain ⟨report, hreport⟩ := h
  obtain ⟨source, document, hread, hrun, hreplaced, -⟩ := replaced_of_published hreport
  exact ⟨source, document.text, hread, readText_eq_ok_iff.2 (hreplaced.kept call.backup),
    readText_eq_ok_iff.2 hreplaced.text, isPublished_of_publishDocument hrun⟩

/-- Only a forced call publishes a published text. -/
theorem not_publishes_of_unforced {text : Text} (hread : tree.readText path = .ok text)
    (hpublished : isPublished text = true) (hforce : call.pipeline.options.force = false) :
    ¬ call.Publishes path tree := by
  rintro ⟨report, hreport⟩
  obtain ⟨source, document, hsource, hrun, -, -⟩ := replaced_of_published hreport
  obtain rfl := Except.ok.inj (hread.symm.trans hsource)
  obtain ⟨start, -, hstart, -⟩ := Pipeline.exists_of_publishDocument hrun
  rw [Pipeline.source?_eq_none_iff.2 (by simp [hpublished, hforce])] at hstart
  contradiction

/-! ### Runs -/

@[simp] theorem run_nil : run path tree [] = tree := rfl

@[simp] theorem run_cons (calls : List Call) : run path tree (call :: calls) = run path (next path tree call) calls :=
  rfl

theorem run_of_quiet {calls : List Call} (h : Quiet path tree calls) : run path tree calls = tree := by
  induction calls generalizing tree with
  | nil => rfl
  | cons call calls ih =>
      obtain ⟨hcall, hcalls⟩ := h
      rw [next_of_not_publishes hcall] at hcalls
      rw [run_cons, next_of_not_publishes hcall]
      exact ih hcalls

/-- Calls without force leave a published text alone. -/
theorem quiet_of_unforced {text : Text} (hread : tree.readText path = .ok text) (hpublished : isPublished text = true)
    {calls : List Call} (hforce : ∀ call ∈ calls, call.pipeline.options.force = false) : Quiet path tree calls := by
  induction calls with
  | nil => trivial
  | cons call calls ih =>
      rw [List.forall_mem_cons] at hforce
      have hcall := not_publishes_of_unforced hread hpublished hforce.1
      refine ⟨hcall, ?_⟩
      rw [next_of_not_publishes hcall]
      exact ih hforce.2

theorem run_append (calls more : List Call) : run path tree (calls ++ more) = run path (run path tree calls) more :=
  List.foldl_append

/-- A call that publishes, and after it none that does: the backup holds what the script held before that call. -/
theorem readText_backup_of_publishes (h : call.Publishes path tree) {later : List Call}
    (hquiet : Quiet path (next path tree call) later) :
    (run path tree (call :: later)).readText path.backup = tree.readText path := by
  obtain ⟨source, text, hread, hbackup, -, -⟩ := kept_of_publishes h
  have hrun : run path tree (call :: later) = next path tree call := by
    rw [run_cons, run_of_quiet hquiet]
  rw [hrun, hbackup, hread]

/-- After the first call that publishes, the backup holds the text of the export until another call publishes, which
    no call without force does; after each call that publishes, it holds what the script held just before it. -/
theorem kept_of_run {source : Text} (hread : tree.readText path = .ok source) {earlier : List Call} {first : Call}
    (hquiet : Quiet path tree earlier) (hfirst : first.Publishes path (run path tree earlier)) :
    (∀ later, Quiet path (run path tree (earlier ++ [first])) later →
        (run path tree (earlier ++ first :: later)).readText path.backup = .ok source)
    ∧ (∀ later, (∀ call ∈ later, call.pipeline.options.force = false) →
        Quiet path (run path tree (earlier ++ [first])) later)
    ∧ ∀ between again later, again.Publishes path (run path tree (earlier ++ first :: between)) →
        Quiet path (run path tree (earlier ++ first :: between ++ [again])) later →
        (run path tree (earlier ++ first :: between ++ again :: later)).readText path.backup
          = (run path tree (earlier ++ first :: between)).readText path := by
  have hnext : ∀ (calls : List Call) (call : Call),
      run path tree (calls ++ [call]) = next path (run path tree calls) call :=
    fun calls call => run_append calls [call]
  refine ⟨fun later hlater => ?_, fun later hforce => ?_, fun between again later hagain hlater => ?_⟩
  · rw [hnext] at hlater
    rw [run_append, readText_backup_of_publishes hfirst hlater, run_of_quiet hquiet, hread]
  · obtain ⟨_, text, -, -, htext, hpublished⟩ := kept_of_publishes hfirst
    rw [hnext]
    exact quiet_of_unforced htext hpublished hforce
  · rw [hnext] at hlater
    rw [run_append, readText_backup_of_publishes hagain hlater]

/-! ### A forced call -/

/-- A forced call publishes again what a call has published. -/
theorem publishes_again {first again : Call} (h : first.Publishes path tree)
    (hforce : again.pipeline.options.force = true) (hpolicy : again.pipeline.options.onUnmatched ≠ .fail) :
    again.Publishes path (next path tree first) := by
  obtain ⟨source, text, -, hbackup, htext, hpublished⟩ := kept_of_publishes h
  obtain ⟨hext, -⟩ := (exists_published_iff tree first.time first.pipeline path).1 h
  obtain ⟨kept, hkeep⟩ := exists_write_of_read (readText_eq_ok_iff.1 hbackup) text.utf8
  have hsource : again.pipeline.source? text = some (stripMarker text) := by
    rw [Pipeline.source?, hpublished, hforce]
    rfl
  exact exists_published hext htext hsource hpolicy fun _ => ⟨kept, hkeep⟩

theorem create_standard (force : Bool) :
    Pipeline.create .standard { Options.standard with force := force }
      = .ok ⟨{ Options.standard with force := force }, Rule.listFor .standard .aliased true⟩ := by
  cases force <;> decide +kernel

/-- A call with the built-in palette. -/
def standard (force : Bool) : Call where
  pipeline := ⟨{ Options.standard with force := force }, Rule.listFor .standard .aliased true⟩
  time := "2026-01-01T00:00:00Z".toList
  accepted := ⟨.standard, { Options.standard with force := force }, create_standard force⟩
  backup := rfl

theorem publishes_exportTree : (standard false).Publishes walkPath exportTree :=
  exists_published rfl readText_exportTree rfl nofun fun _ => ⟨_, write_backup_exportTree⟩

/-- An export that is published once, and then rejected. -/
theorem kept_of_run_exportTree :
    (run walkPath exportTree [standard false, standard false]).readText walkPath.backup
      = .ok layerText := by
  have hquiet : Quiet walkPath exportTree [] := trivial
  obtain ⟨hkept, hunforced, -⟩ := kept_of_run readText_exportTree hquiet (publishes_exportTree)
  exact hkept [standard false] (hunforced [standard false] (by simp [standard, Options.standard]))

/-- A forced call puts the published text in the place of the text that the backup has kept. -/
theorem not_kept_of_forced :
    ¬ ∀ (path : Path) (tree : FileTree) (source : Text) (earlier : List Call) (first : Call) (later : List Call),
      path.extension? = some (Text.bytes "js".toList) → tree.readText path = .ok source → isPublished source = false →
        tree.read path.backup = .error .notFound → Quiet path tree earlier →
          first.Publishes path (run path tree earlier) →
            (run path tree (earlier ++ first :: later)).readText path.backup = .ok source := by
  intro hclaim
  have hfirst := publishes_exportTree
  have hagain : (standard true).Publishes walkPath (next walkPath exportTree (standard false)) :=
    publishes_again hfirst rfl (by decide)
  have hkept := hclaim walkPath exportTree _ [] (standard false) [standard true] rfl readText_exportTree
    (by decide) rfl trivial (by rw [run_nil]; exact hfirst)
  rw [List.nil_append, run_cons, run_cons, run_nil] at hkept
  obtain ⟨source, text, -, -, htext, hpublished⟩ := kept_of_publishes hfirst
  obtain ⟨held, -, hheld, hbackup, -, -⟩ := kept_of_publishes hagain
  obtain rfl := Except.ok.inj (htext.symm.trans hheld)
  obtain rfl := Except.ok.inj (hbackup.symm.trans hkept)
  exact absurd hpublished (by decide)

end Call

end CanvasExport.FileTree
