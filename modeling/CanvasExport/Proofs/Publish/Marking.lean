/-
Module: CanvasExport.Proofs.Publish.Marking
Layer: Proofs
Purpose: One marker over any run of attempts at publishing. A text that no marker stands at the ends of, and whose
  line breaks are whole, is what every rule of every pipeline leaves of such a text; marking it and stripping the
  marker gives it back, and its line ending is never another one.
Main exports: Pristine, stripMarker_mark, Pipeline.pristine_of_publishDocument, Attempt, Attempt.run,
  Attempt.marked_of_run
-/
import CanvasExport.Proofs.Publish.Weave

namespace CanvasExport

open Rule

/-! ### The ends of lines -/

namespace Lines

/-- A text starts as its first line does. -/
theorem prefix_text_iff {needle : Text} (h : CanvasExport.Unbroken needle) (ls : Lines) :
    needle <+: ls.text ↔ needle <+: ls.top :=
  prefix_line_iff h ls.top ls.below

/-- A text ends as its last line does. -/
theorem suffix_text_iff {needle : Text} (h : CanvasExport.Unbroken needle) (ls : Lines) :
    needle <:+ ls.text ↔ ∃ last ∈ ls.contents.getLast?, needle <:+ last := by
  obtain ⟨top, below⟩ := ls
  rcases List.eq_nil_or_concat below with rfl | ⟨front, ⟨ending, content⟩, rfl⟩
  · simp [text, contents]
  · obtain ⟨early, hending⟩ := ending.exists_text_eq_append
    have hlf : '\n' ∉ needle := fun hmem => absurd (h _ hmem) (by decide)
    have htext : (⟨top, front.concat (ending, content)⟩ : Lines).text
        = ((⟨top, front⟩ : Lines).text ++ early) ++ '\n' :: content := by
      rw [List.concat_eq_append]
      apply (text_snoc ⟨top, front⟩ ending content).trans
      rw [hending]
      simp only [List.append_assoc, List.singleton_append]
    have hlast : (⟨top, front.concat (ending, content)⟩ : Lines).contents.getLast? = some content := by
      rw [List.concat_eq_append]
      exact (congrArg List.getLast? (contents_snoc ⟨top, front⟩ ending content)).trans List.getLast?_concat
    rw [htext, suffix_append_cons_iff hlf, hlast]
    simp

end Lines

theorem isPublished_eq_false_iff {document : Text} :
    isPublished document = false ↔ ¬ marker <+: document ∧ ¬ marker <:+ document := by
  rw [isPublished, Bool.or_eq_false_iff, ← List.isPrefixOf_iff_prefix, ← List.isSuffixOf_iff_suffix,
    Bool.not_eq_true, Bool.not_eq_true]

/-! ### The marker beside images and guards -/

/-- Images start with the marker where their lines do. -/
theorem prefix_lineImage_iff {palette : Palette} (hvalid : palette.Valid) (options : Options) {line : Text}
    (hline : Unbroken line) : marker <+: lineImage palette options line ↔ marker <+: line := by
  have hfills := fillSwaps_of_valid hvalid options.variant
  have hopen : '(' ∉ marker := by decide
  have hquote : '"' ∉ marker := by decide
  refine iff_of_eq (view_lineImage (fun t => marker <+: t) hvalid options (fun t => ?_) (fun t ht => ?_) hline)
  · refine hfills.view_swept (fun t => marker <+: t) (fun first second above below _ _ => propext ?_) t
    exact (prefix_fillReference_iff hopen first above below).trans
      (prefix_fillReference_iff hopen second above below).symm
  · refine view_remapped (fun t => marker <+: t) options.variant (fun above below _ _ => propext ?_) ht
    exact (prefix_append_cons_iff hquote).trans (prefix_append_cons_iff hquote).symm

/-- The marker at the end of a bitmap's line stands behind the words of the path. -/
theorem suffix_bitmap_iff (variant : Variant) (above below : Text) :
    marker <:+ above ++ '"' :: (imageWord ++ '/' :: below)
      ↔ marker <:+ above ++ '"' :: (assetWord ++ '/' :: (cacheWord variant ++ '/' :: below)) := by
  have hquote : '"' ∉ marker := by decide
  have hmarker : marker = '/' :: '/' :: " Published.".toList := by decide
  have himage : '/' ∉ imageWord := writtenIn_imageWord.not_mem rfl
  have hasset : '/' ∉ assetWord := writtenIn_assetWord.not_mem rfl
  have hcache : '/' ∉ cacheWord variant := (writtenIn_cacheWord variant).not_mem rfl
  obtain ⟨rest, hrest⟩ : ∃ rest, cacheWord variant = 'c' :: rest := by cases variant <;> exact ⟨_, rfl⟩
  have hword : '/' :: '/' :: " Published.".toList ≠ '/' :: (cacheWord variant ++ '/' :: below) := by
    intro heq
    rw [hrest] at heq
    exact absurd (List.cons.inj (List.cons.inj heq).2).1 (by decide)
  rw [suffix_append_cons_iff hquote, suffix_append_cons_iff hquote, hmarker, suffix_append_iff_of_first himage,
    suffix_append_iff_of_first hasset, @List.suffix_cons_iff _ _ _ (cacheWord variant ++ '/' :: below),
    or_iff_right hword, suffix_append_iff_of_first hcache]

/-- Images end with the marker where their lines do. -/
theorem suffix_lineImage_iff {palette : Palette} (hvalid : palette.Valid) (options : Options) {line : Text}
    (hline : Unbroken line) : marker <:+ lineImage palette options line ↔ marker <:+ line := by
  have hfills := fillSwaps_of_valid hvalid options.variant
  have hclose : ')' ∉ marker := by decide
  refine iff_of_eq (view_lineImage (fun t => marker <:+ t) hvalid options (fun t => ?_) (fun t ht => ?_) hline)
  · refine hfills.view_swept (fun t => marker <:+ t) (fun first second above below _ _ => propext ?_) t
    exact (suffix_fillReference_iff hclose first above below).trans
      (suffix_fillReference_iff hclose second above below).symm
  · refine view_remapped (fun t => marker <:+ t) options.variant (fun above below _ _ => ?_) ht
    exact propext (suffix_bitmap_iff options.variant above below)

/-- Guards bring no marker to the ends of a line. -/
theorem not_marked_guarded {selection : Text} {gates : List LayerGate} (hselection : WrittenIn argumentChar selection)
    {content guarded : Text} (h : GuardedBy selection gates content guarded) :
    (marker <+: guarded → marker <+: content) ∧ (marker <:+ guarded → marker <:+ content) := by
  have hmarker : marker = '/' :: marker.tail := by decide
  have hslash : guardChar '/' = false := by decide
  rcases guardedBy_cases hselection h with rfl | ⟨guard, hguard, -, rfl⟩
  · exact ⟨id, id⟩
  · refine ⟨fun hhead => ?_, (suffix_behind_guard_iff hguard (by decide) content).1⟩
    rw [hmarker] at hhead
    exact absurd hhead (not_prefix_guard hguard hslash _ content)

/-! ### The ends of a woven text -/

namespace Woven

variable {w : Weave} {headed : Bool}

/-- A woven text starts with an empty line or the first image. -/
theorem head {line : Text} {rest written : List Text} (h : Woven w headed (line :: rest) written) :
    ∃ first below, written = first :: below ∧ (first = [] ∨ w.Guarded (w.image line) first) := by
  cases h with
  | @cons _ _ guarded below _ written himage _ _ =>
      rw [Weave.above]
      cases w.entry? with
      | none => exact ⟨guarded, _, rfl, .inr himage⟩
      | some entry =>
          dsimp only
          split
          · exact ⟨[], _, rfl, .inl rfl⟩
          · exact ⟨guarded, _, rfl, .inr himage⟩

/-- A woven text ends with an empty line or the last image. -/
theorem last {contents written : List Text} (h : Woven w headed contents written) {line : Text}
    (hline : line ∈ contents.getLast?) :
    ∃ last ∈ written.getLast?, last = [] ∨ w.Guarded (w.image line) last := by
  induction h with
  | nil => simp at hline
  | @cons headed content guarded below rest written himage hbelow hrest ih =>
      cases hrest with
      | nil =>
          obtain rfl : content = line := by simpa using hline
          cases hbelow with
          | bound => exact ⟨[], by simp, .inl rfl⟩
          | plain => exact ⟨guarded, by simp, .inr himage⟩
      | cons himage' hbelow' hrest' =>
          obtain ⟨last, hlast, hcases⟩ := ih (by simpa [List.getLast?_cons_cons] using hline)
          refine ⟨last, ?_, hcases⟩
          rw [Option.mem_def] at hlast ⊢
          rw [List.getLast?_append, List.getLast?_cons, List.getLast?_append, hlast]
          simp

end Woven

/-! ### Texts to be marked -/

/-- What a run keeps of the document that it starts with: whole line breaks, no marker at either end, and the kind
    of the breaks. -/
structure Pristine (ending : LineEnding) (body : Text) : Prop where
  tidy : Tidy body = true
  unpublished : isPublished body = false
  ending : LineEnding.ofText body = ending

/-- A carriage return that has its line feed is not the last character. -/
theorem not_suffix_of_tidy {t : Text} (h : Tidy t = true) : ¬ ['\r'] <:+ t := by
  induction t with
  | nil => simp
  | cons c t ih =>
      simp only [Tidy, Bool.and_eq_true] at h
      rw [List.suffix_cons_iff]
      rintro (hwhole | hbelow)
      · obtain ⟨rfl, rfl⟩ : '\r' = c ∧ [] = t := by simpa using hwhole
        simp at h
      · exact ih h.2 hbelow

/-- The line break in front of the marker is taken as a whole, and nothing else is. -/
theorem dropLastBreak_append_ending {body : Text} (h : Tidy body = true) (ending : LineEnding) :
    dropLastBreak (body ++ ending.text) = body := by
  have hstrip : Text.stripEnd? ending.text (body ++ ending.text) = some body := Text.stripEnd?_eq_some_iff.2 rfl
  cases ending with
  | crlf => rw [dropLastBreak, hstrip]
  | lf =>
      have hcrlf : Text.stripEnd? LineEnding.crlf.text (body ++ LineEnding.lf.text) = none := by
        refine stripEnd?_eq_none_iff.2 fun hsuffix => not_suffix_of_tidy h ?_
        have hbefore : ['\r'] ++ ['\n'] <:+ body ++ ['\n'] := hsuffix
        exact ((List.suffix_append_inj_of_length_eq rfl).1 hbefore).1
      rw [dropLastBreak, hcrlf, hstrip]
      rfl

/-- A marked text starts with the marker where the text does. -/
theorem prefix_mark_iff (ending : LineEnding) (body : Text) :
    marker <+: Pipeline.mark ending body ↔ marker <+: body := by
  rw [← Lines.text_ofText body, Pipeline.mark_text, Lines.prefix_text_iff unbroken_marker,
    Lines.prefix_text_iff unbroken_marker]
  rfl

/-- Stripping the marker gives back the text that was marked. -/
theorem stripMarker_mark {ending : LineEnding} {body : Text} (h : Pristine ending body) :
    stripMarker (Pipeline.mark ending body) = body := by
  have hunmarked := (isPublished_eq_false_iff.1 h.unpublished).1
  have hhead : Text.strip? marker (Pipeline.mark ending body) = none := by
    cases hstrip : Text.strip? marker (Pipeline.mark ending body) with
    | none => rfl
    | some rest =>
        have hmarked : marker <+: Pipeline.mark ending body := ⟨rest, (Text.strip?_eq_some_iff.1 hstrip).symm⟩
        exact absurd ((prefix_mark_iff ending body).1 hmarked) hunmarked
  have hend : Text.stripEnd? marker (Pipeline.mark ending body) = some (body ++ ending.text) :=
    Text.stripEnd?_eq_some_iff.2 rfl
  rw [stripMarker_eq, stripFirstMarker, hhead, Option.map_none, Option.getD_none, stripLastMarker, hend,
    Option.map_some, Option.getD_some]
  exact dropLastBreak_append_ending h.tidy ending

theorem isPublished_mark (ending : LineEnding) (body : Text) : isPublished (Pipeline.mark ending body) = true := by
  have hend : marker <:+ Pipeline.mark ending body := List.suffix_append _ _
  rw [isPublished, List.isSuffixOf_iff_suffix.2 hend, Bool.or_true]

/-- Rules that insert the ending which the lines call for leave them calling for it. -/
theorem Lines.ending_rewritten (context : DocumentContext) (rules : List Rule) {ls : Lines}
    (h : ls.ending = context.ending) : (ls.rewritten context rules).ending = context.ending := by
  induction rules generalizing ls with
  | nil => exact h
  | cons rule rules ih =>
      apply ih
      rw [← h, Lines.ending_write (rule.length_blocks context.stem ls.contents)]

namespace Pipeline

variable {pipeline : Pipeline}

theorem source?_of_pristine {ending : LineEnding} {body : Text} (h : Pristine ending body) :
    pipeline.source? body = some body := by
  rw [source?, h.unpublished]
  rfl

/-- A marked text is rejected, or stripped of its marker and nothing else. -/
theorem source?_mark {ending : LineEnding} {body : Text} (h : Pristine ending body) :
    pipeline.source? (mark ending body) = if pipeline.options.force then some body else none := by
  rw [source?, isPublished_mark, if_pos rfl, stripMarker_mark h]

/-- The rules of a pipeline bring no marker to the ends of a text. -/
theorem unpublished_rewritten {palette : Palette} {options : Options}
    (hcreate : Pipeline.create palette options = .ok pipeline) (context : DocumentContext) {ls : Lines}
    (hls : ls.Unbroken) (h : isPublished ls.text = false) :
    isPublished (ls.rewritten context pipeline.rules).text = false := by
  have hvalid := (eq_of_create hcreate).1
  have hselection := writtenIn_selectionOf hvalid options.variant
  have hwoven := woven_lines hvalid options context.stem hls
  rw [← contents_of_create hcreate] at hwoven
  rw [isPublished_eq_false_iff, Lines.prefix_text_iff unbroken_marker, Lines.suffix_text_iff unbroken_marker] at h ⊢
  have hne : ¬ marker <+: [] ∧ ¬ marker <:+ [] := by decide
  constructor
  · obtain ⟨first, below, hwritten, hfirst⟩ := hwoven.head
    obtain rfl := (List.cons.inj hwritten).1
    rcases hfirst with hnil | himage
    · rw [hnil]
      exact hne.1
    · intro hmarked
      have himage := (not_marked_guarded hselection himage).1 hmarked
      exact h.1 ((prefix_lineImage_iff hvalid options (hls _ List.mem_cons_self)).1 himage)
  · rintro ⟨last, hlast, hmarked⟩
    obtain ⟨line, hline⟩ : ∃ line, line ∈ ls.contents.getLast? :=
      ⟨_, List.getLast?_eq_some_getLast (List.cons_ne_nil _ _)⟩
    obtain ⟨last', hlast', hcases⟩ := hwoven.last hline
    obtain rfl : last' = last := Option.mem_unique hlast' hlast
    rcases hcases with rfl | himage
    · exact hne.2 hmarked
    · have himage := (not_marked_guarded hselection himage).2 hmarked
      have hmem : line ∈ ls.contents := List.mem_of_getLast? hline
      exact h.2 ⟨line, hline, (suffix_lineImage_iff hvalid options (hls line hmem)).1 himage⟩

/-- The rules of a pipeline leave a pristine text pristine. -/
theorem pristine_rewritten {palette : Palette} {options : Options}
    (hcreate : Pipeline.create palette options = .ok pipeline) (stem : Text) {ending : LineEnding} {source : Text}
    (h : Pristine ending source) :
    Pristine ending ((Lines.ofText source).rewritten (.ofDocument stem source) pipeline.rules).text := by
  have hls := Lines.unbroken_ofText h.tidy
  have hrewritten := Lines.unbroken_rewritten (sound_of_create hcreate) hls (.ofDocument stem source)
  have hending : (Lines.ofText source).ending = LineEnding.ofText source := by
    rw [← Lines.ofText_lines_ending hls, Lines.text_ofText]
  have hunpublished : isPublished (Lines.ofText source).text = false := by
    rw [Lines.text_ofText]
    exact h.unpublished
  refine ⟨Lines.tidy_text hrewritten, unpublished_rewritten hcreate _ hls hunpublished, ?_⟩
  rw [Lines.ofText_lines_ending hrewritten,
    Lines.ending_rewritten (.ofDocument stem source) pipeline.rules hending]
  exact h.ending

/-- What a pipeline publishes of a pristine source is a pristine text and the marker. -/
theorem pristine_of_publishDocument {palette : Palette} {options : Options}
    (hcreate : Pipeline.create palette options = .ok pipeline) {document source stem : Text}
    (hsource : pipeline.source? document = some source) {ending : LineEnding} (h : Pristine ending source)
    {published : PublishedDocument} (hpublished : (pipeline.publishDocument document stem).outcome = .ok published) :
    ∃ body, published.text = mark ending body ∧ Pristine ending body := by
  have htext := text_of_publishDocument hcreate hsource h.tidy hpublished
  rw [h.ending] at htext
  exact ⟨_, htext, pristine_rewritten hcreate stem h⟩

end Pipeline

/-! ### Runs -/

/-- One attempt at publishing: a pipeline that its palette allows, and a stem. -/
structure Attempt where
  pipeline : Pipeline
  stem : Text
  accepted : ∃ palette options, Pipeline.create palette options = .ok pipeline

namespace Attempt

def publish (attempt : Attempt) (document : Text) : Logged PublishedDocument :=
  attempt.pipeline.publishDocument document attempt.stem

/-- The text after an attempt: the published one, or the text as it was if the attempt fails. -/
def next (document : Text) (attempt : Attempt) : Text :=
  match (attempt.publish document).outcome with
  | .ok published => published.text
  | .error _ => document

theorem next_of_success {attempt : Attempt} {document : Text} {published : PublishedDocument}
    (h : (attempt.publish document).outcome = .ok published) : next document attempt = published.text := by
  rw [next, h]

/-- With force, every attempt succeeds unless a rule that finds nothing counts as a failure. -/
theorem exists_publish {attempt : Attempt} (hforce : attempt.pipeline.options.force = true)
    (hpolicy : attempt.pipeline.options.onUnmatched ≠ .fail) (document : Text) :
    ∃ published, (attempt.publish document).outcome = .ok published := by
  obtain ⟨source, hsource⟩ : ∃ source, attempt.pipeline.source? document = some source := by
    rw [Pipeline.source?, hforce]
    split
    · exact ⟨_, rfl⟩
    · exact ⟨_, rfl⟩
  exact Pipeline.exists_publishDocument hpolicy hsource attempt.stem

/-- The text after a run of attempts, each at the text that the last success has left. -/
def run (document : Text) (attempts : List Attempt) : Text :=
  attempts.foldl next document

/-- A text with one marker. -/
def Marked (ending : LineEnding) (t : Text) : Prop :=
  ∃ body, t = Pipeline.mark ending body ∧ Pristine ending body

/-- Success leaves a marked text, whether the text before was marked or not. -/
theorem marked_of_success {ending : LineEnding} {document : Text}
    (h : Pristine ending document ∨ Marked ending document) {attempt : Attempt} {published : PublishedDocument}
    (hsuccess : (attempt.publish document).outcome = .ok published) : Marked ending published.text := by
  obtain ⟨palette, options, hcreate⟩ := attempt.accepted
  rcases h with hpristine | ⟨body, rfl, hpristine⟩
  · have hsource : attempt.pipeline.source? document = some document := Pipeline.source?_of_pristine hpristine
    exact Pipeline.pristine_of_publishDocument hcreate hsource hpristine hsuccess
  · have hsource := @Pipeline.source?_mark attempt.pipeline ending body hpristine
    cases hforce : attempt.pipeline.options.force with
    | true =>
        rw [hforce, if_pos rfl] at hsource
        exact Pipeline.pristine_of_publishDocument hcreate hsource hpristine hsuccess
    | false =>
        rw [hforce] at hsource
        simp [publish, Pipeline.publishDocument, hsource, Logged.of] at hsuccess

/-- An attempt keeps a marked text marked. -/
theorem marked_next {ending : LineEnding} {document : Text} (h : Marked ending document) (attempt : Attempt) :
    Marked ending (next document attempt) := by
  rw [next]
  split
  · rename_i published hsuccess
    exact marked_of_success (.inr h) hsuccess
  · exact h

/-- So does every run. -/
theorem marked_run {ending : LineEnding} {document : Text} (h : Marked ending document) (attempts : List Attempt) :
    Marked ending (run document attempts) := by
  induction attempts generalizing document with
  | nil => exact h
  | cons attempt attempts ih => exact ih (marked_next h attempt)

/-- Until one of its attempts succeeds, a run leaves the text as it is. -/
theorem run_eq_or_marked {ending : LineEnding} {document : Text} (h : Pristine ending document)
    (attempts : List Attempt) : run document attempts = document ∨ Marked ending (run document attempts) := by
  induction attempts with
  | nil => exact .inl rfl
  | cons attempt attempts ih =>
      rw [run, List.foldl_cons, next]
      split
      · rename_i published hsuccess
        exact .inr (marked_run (marked_of_success (.inl h) hsuccess) attempts)
      · exact ih

/-- From the first success on, the text is a body with one marker below it, whose line break is of the kind that the
    first document has. Without force every attempt is rejected and leaves the text as it is; with force it starts
    from that body. -/
theorem marked_of_run {document : Text} (htidy : Tidy document = true) (hunpublished : isPublished document = false)
    (earlier : List Attempt) (first : Attempt) (later : List Attempt) {published : PublishedDocument}
    (hfirst : (first.publish (run document earlier)).outcome = .ok published) :
    ∃ body, run document (earlier ++ first :: later) = Pipeline.mark (LineEnding.ofText document) body
      ∧ ¬ marker <+: body ∧ ¬ marker <:+ body
      ∧ ∀ attempt : Attempt,
        (attempt.pipeline.options.force = false →
          attempt.publish (run document (earlier ++ first :: later)) = .of (.error .alreadyPublished)
            ∧ next (run document (earlier ++ first :: later)) attempt = run document (earlier ++ first :: later))
        ∧ (attempt.pipeline.options.force = true →
          attempt.pipeline.source? (run document (earlier ++ first :: later)) = some body) := by
  have hpristine : Pristine (LineEnding.ofText document) document := ⟨htidy, hunpublished, rfl⟩
  have hbefore : Pristine (LineEnding.ofText document) (run document earlier)
      ∨ Marked (LineEnding.ofText document) (run document earlier) := by
    apply (run_eq_or_marked hpristine earlier).imp_left
    intro heq
    rw [heq]
    exact hpristine
  have hrun : run document (earlier ++ first :: later) = run published.text later := by
    rw [run, List.foldl_append, List.foldl_cons, ← run, ← run, next_of_success hfirst]
  rw [hrun]
  obtain ⟨body, hbody, hmarked⟩ := marked_run (marked_of_success hbefore hfirst) later
  obtain ⟨hhead, hend⟩ := isPublished_eq_false_iff.1 hmarked.unpublished
  refine ⟨body, hbody, hhead, hend, fun attempt => ?_⟩
  have hsource := @Pipeline.source?_mark attempt.pipeline _ _ hmarked
  rw [← hbody] at hsource
  constructor
  · intro hforce
    rw [hforce] at hsource
    have hrejected : attempt.publish (run published.text later) = .of (.error .alreadyPublished) := by
      rw [publish, Pipeline.publishDocument, hsource]
      rfl
    refine ⟨hrejected, ?_⟩
    rw [next, hrejected]
    rfl
  · intro hforce
    rw [hsource, hforce, if_pos rfl]

/-- A forced attempt with the built-in palette. -/
def again (stem : Text) : Attempt where
  pipeline := ⟨{ Options.standard with force := true }, Rule.listFor .standard .aliased true⟩
  stem := stem
  accepted := ⟨.standard, { Options.standard with force := true }, by decide +kernel⟩

/-- Two forced attempts at a layer under CRLF breaks. -/
theorem marked_of_run_layer :
    ∃ body, run "// figure1hair2\r\nthis.addTween();".toList [again "walk".toList, again "run".toList]
        = Pipeline.mark .crlf body
      ∧ ¬ marker <+: body ∧ ¬ marker <:+ body
      ∧ (again "jump".toList).pipeline.source?
        (run "// figure1hair2\r\nthis.addTween();".toList [again "walk".toList, again "run".toList]) = some body := by
  have hpristine : Pristine .crlf "// figure1hair2\r\nthis.addTween();".toList := ⟨by decide, by decide, by decide⟩
  have hpolicy : (again "walk".toList).pipeline.options.onUnmatched ≠ .fail := by decide
  obtain ⟨published, hfirst⟩ := exists_publish rfl hpolicy "// figure1hair2\r\nthis.addTween();".toList
  obtain ⟨body, hbody, hhead, hend, hattempt⟩ := marked_of_run hpristine.tidy hpristine.unpublished []
    (again "walk".toList) [again "run".toList] hfirst
  exact ⟨body, hbody, hhead, hend, (hattempt (again "jump".toList)).2 rfl⟩

end Attempt

end CanvasExport
