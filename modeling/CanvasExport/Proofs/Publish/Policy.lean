/-
Module: CanvasExport.Proofs.Publish.Policy
Layer: Proofs
Purpose: One document under the three policies on rules that find nothing. The rules make one text and one list of
  counts of it, whatever the policy; the policy adds warnings to the log, or ends the run at the first rule that
  counts nothing. Such a rule has left its text as it was.
Main exports: Rule.text_of_replacements_eq_zero, Pipeline.draft, Pipeline.applyRules_ignore, Pipeline.applyRules_warn,
  Pipeline.StrictEnd, Pipeline.strictEnd_applyRules, Pipeline.publishDocument_underPolicies
-/
import CanvasExport.Proofs.Publish.Run
import CanvasExport.Proofs.Rule.Insertion

namespace CanvasExport

/-! ### Rules that count nothing -/

/-- Passes that count nothing write what they read. -/
theorem Rewrite.text_of_replacements_eq_zero {steps : List (Text → Script)}
    (hsource : ∀ pass ∈ steps, ∀ t, (pass t).source = t) {t : Text} (h : (passes t steps).replacements = 0) :
    (passes t steps).text = t := by
  induction steps generalizing t with
  | nil => rfl
  | cons pass steps ih =>
      rw [List.forall_mem_cons] at hsource
      rw [passes_cons] at h ⊢
      obtain ⟨hfirst, hrest⟩ := Nat.add_eq_zero_iff.1 h
      have hsame : (pass t).result = t := by
        rw [Script.result_of_swaps_eq_zero hfirst, hsource.1]
      rw [hsame] at hrest ⊢
      exact ih hsource.2 hrest

/-- A rule that counts no replacement leaves the text as it is. -/
theorem Rule.text_of_replacements_eq_zero {rule : Rule} {context : DocumentContext} {t : Text}
    (h : (rule.apply context t).replacements = 0) : (rule.apply context t).text = t := by
  rw [apply_eq_passes] at h ⊢
  exact Rewrite.text_of_replacements_eq_zero source_of_mem_steps h

namespace Pipeline

/-! ### What the rules make of a document -/

/-- The rules one after the other, whatever they find: the text that they leave, and what each of them counts. -/
def draft (context : DocumentContext) : List Rule → Text → PublishedDocument
  | [], t => ⟨t, []⟩
  | rule :: rest, t =>
    let rewrite := rule.apply context t
    let below := draft context rest rewrite.text
    { below with rules := (rule.name, rewrite.replacements) :: below.rules }

theorem ruleNames_draft (context : DocumentContext) (rules : List Rule) (t : Text) :
    (draft context rules t).rules.map Prod.fst = rules.map Rule.name := by
  induction rules generalizing t with
  | nil => rfl
  | cons rule rules ih => simp only [draft, List.map_cons, ih]

/-- The events of rules that have run. -/
def appliedEvents (counts : List (RuleName × Nat)) : List Event :=
  counts.map fun entry => .appliedRule entry.1 entry.2

/-- The events of rules that have run, with a warning behind each that has found nothing. -/
def warnedEvents (stem : Text) (counts : List (RuleName × Nat)) : List Event :=
  counts.flatMap fun entry =>
    .appliedRule entry.1 entry.2 :: if entry.2 = 0 then [.unmatchedRule entry.1 stem] else []

/-! ### The rules under each policy -/

/-- What a policy makes of a rule's count. -/
def judge (policy : UnmatchedPolicy) (rule : RuleName) (count : Nat) (stem : Text) : Logged Unit :=
  if count = 0 then handleUnmatched policy rule stem else .of (.ok ())

theorem judge_of_pos (policy : UnmatchedPolicy) (rule : RuleName) {count : Nat} (h : 0 < count) (stem : Text) :
    judge policy rule count stem = ⟨[], .ok ()⟩ :=
  if_neg (Nat.ne_of_gt h)

section Step

variable {policy : UnmatchedPolicy} {context : DocumentContext} {rule : Rule} {t : Text} {noted : List Event}

/-- A rule that the policy lets pass leads on to the rules below it. -/
theorem applyRules_cons_of_ok
    (h : judge policy rule.name (rule.apply context t).replacements context.stem = ⟨noted, .ok ()⟩)
    (rules : List Rule) :
    let rewrite := rule.apply context t
    applyRules policy context (rule :: rules) t
      = ((applyRules policy context rules rewrite.text).map fun document =>
        { document with rules := (rule.name, rewrite.replacements) :: document.rules }).after
          (.appliedRule rule.name rewrite.replacements :: noted) := by
  rw [judge] at h
  rw [applyRules]
  simp only [h]

/-- A rule that the policy does not let pass ends the run once it is logged. -/
theorem applyRules_cons_of_error {error : PublishError}
    (h : judge policy rule.name (rule.apply context t).replacements context.stem = ⟨noted, .error error⟩)
    (rules : List Rule) :
    applyRules policy context (rule :: rules) t
      = ⟨.appliedRule rule.name (rule.apply context t).replacements :: noted, .error error⟩ := by
  rw [judge] at h
  rw [applyRules]
  simp only [h]

end Step

/-- Rules that find nothing are ignored. -/
theorem applyRules_ignore (context : DocumentContext) (rules : List Rule) (t : Text) :
    applyRules .ignore context rules t
      = ⟨appliedEvents (draft context rules t).rules, .ok (draft context rules t)⟩ := by
  induction rules generalizing t with
  | nil => rfl
  | cons rule rules ih =>
      have hjudge : judge .ignore rule.name (rule.apply context t).replacements context.stem = ⟨[], .ok ()⟩ :=
        ite_self _
      rw [applyRules_cons_of_ok hjudge, ih]
      rfl

/-- Rules that find nothing are warned of, one by one. -/
theorem applyRules_warn (context : DocumentContext) (rules : List Rule) (t : Text) :
    applyRules .warn context rules t
      = ⟨warnedEvents context.stem (draft context rules t).rules, .ok (draft context rules t)⟩ := by
  induction rules generalizing t with
  | nil => rfl
  | cons rule rules ih =>
      have hjudge : judge .warn rule.name (rule.apply context t).replacements context.stem
          = ⟨if (rule.apply context t).replacements = 0 then [.unmatchedRule rule.name context.stem] else [],
            .ok ()⟩ := by
        rw [judge]
        split
        · rfl
        · rfl
      rw [applyRules_cons_of_ok hjudge, ih]
      simp [draft, warnedEvents, Logged.map, Logged.after, Except.map]

/-- How a run ends that allows no rule to find nothing: with the document if each rule finds something, and otherwise
    with the first one that does not, right after that has been logged. -/
inductive StrictEnd (published : PublishedDocument) : Logged PublishedDocument → Prop
  | matched (h : ∀ entry ∈ published.rules, 0 < entry.2) :
      StrictEnd published ⟨appliedEvents published.rules, .ok published⟩
  | unmatched {above below : List (RuleName × Nat)} {rule : RuleName}
      (hrules : published.rules = above ++ (rule, 0) :: below) (habove : ∀ entry ∈ above, 0 < entry.2) :
      StrictEnd published ⟨appliedEvents (above ++ [(rule, 0)]), .error (.ruleUnmatched rule)⟩

/-- A strict run succeeds exactly if each rule finds something. -/
theorem StrictEnd.outcome_eq_ok_iff {published : PublishedDocument} {run : Logged PublishedDocument}
    (h : StrictEnd published run) :
    run.outcome = .ok published ↔ ∀ entry ∈ published.rules, 0 < entry.2 := by
  cases h with
  | matched hpos => exact iff_of_true rfl hpos
  | @unmatched above below rule hrules habove =>
      refine iff_of_false (fun heq => by contradiction) fun hpos => ?_
      exact absurd (hpos (rule, 0) (hrules ▸ List.mem_append_right _ List.mem_cons_self)) (Nat.lt_irrefl 0)

/-- The end of a run does not depend on the text that is left. -/
theorem StrictEnd.map {published : PublishedDocument} {run : Logged PublishedDocument} (h : StrictEnd published run)
    (write : Text → Text) :
    StrictEnd { published with text := write published.text }
      (run.map fun document => { document with text := write document.text }) := by
  cases h with
  | matched hpos => exact .matched hpos
  | unmatched hrules habove => exact .unmatched hrules habove

/-- One more rule that finds something, above a strict run. -/
theorem StrictEnd.cons {published : PublishedDocument} {run : Logged PublishedDocument} (h : StrictEnd published run)
    (rule : RuleName) {count : Nat} (hcount : 0 < count) :
    StrictEnd { published with rules := (rule, count) :: published.rules }
      ((run.map fun document => { document with rules := (rule, count) :: document.rules }).after
        [.appliedRule rule count]) := by
  cases h with
  | matched hpos => exact .matched (List.forall_mem_cons.2 ⟨hcount, hpos⟩)
  | @unmatched above below other hrules habove =>
      have hmore : (rule, count) :: published.rules = ((rule, count) :: above) ++ (other, 0) :: below := by
        rw [hrules, List.cons_append]
      have hpos : ∀ entry ∈ (rule, count) :: above, 0 < entry.2 := List.forall_mem_cons.2 ⟨hcount, habove⟩
      exact .unmatched hmore hpos

/-- The first rule that finds nothing ends a strict run. -/
theorem strictEnd_applyRules (context : DocumentContext) (rules : List Rule) (t : Text) :
    StrictEnd (draft context rules t) (applyRules .fail context rules t) := by
  induction rules generalizing t with
  | nil => exact .matched (by simp [draft])
  | cons rule rules ih =>
      rcases Nat.eq_zero_or_pos (rule.apply context t).replacements with hzero | hpos
      · have hjudge : judge .fail rule.name (rule.apply context t).replacements context.stem
            = ⟨[], .error (.ruleUnmatched rule.name)⟩ := if_pos hzero
        rw [applyRules_cons_of_error hjudge, hzero]
        have hrules : (draft context (rule :: rules) t).rules
            = [] ++ (rule.name, 0) :: (draft context rules (rule.apply context t).text).rules := by
          rw [← hzero]
          rfl
        exact .unmatched hrules (by simp)
      · rw [applyRules_cons_of_ok (judge_of_pos .fail rule.name hpos context.stem)]
        exact (ih _).cons rule.name hpos

/-- Whatever the policy, a run that succeeds gives the draft. -/
theorem eq_draft_of_applyRules {policy : UnmatchedPolicy} {context : DocumentContext} {rules : List Rule} {t : Text}
    {published : PublishedDocument} (h : (applyRules policy context rules t).outcome = .ok published) :
    published = draft context rules t := by
  cases policy with
  | ignore =>
      rw [applyRules_ignore] at h
      exact (Except.ok.inj h).symm
  | warn =>
      rw [applyRules_warn] at h
      exact (Except.ok.inj h).symm
  | fail =>
      cases hrun : applyRules .fail context rules t with
      | mk events outcome =>
          have hstrict := strictEnd_applyRules context rules t
          rw [hrun] at h hstrict
          cases hstrict with
          | matched _ => exact (Except.ok.inj h).symm
          | unmatched _ _ => contradiction

/-! ### Publishing under each policy -/

section Publish

variable {pipeline : Pipeline} {document : Text}

theorem publishDocument_of_source?_eq_none (h : pipeline.source? document = none) (stem : Text) :
    pipeline.publishDocument document stem = .of (.error .alreadyPublished) := by
  rw [publishDocument, h]

/-- A document with a source goes through the rules and is marked. -/
theorem publishDocument_of_source? {source : Text} (h : pipeline.source? document = some source) (stem : Text) :
    pipeline.publishDocument document stem
      = (applyRules pipeline.options.onUnmatched (.ofDocument stem source) pipeline.rules source).map fun document =>
        { document with text := mark (LineEnding.ofText source) document.text } := by
  rw [publishDocument, h]
  rfl

end Publish

/-- The policy on rules that find nothing decides about success and warnings, and never about the text. The pipelines of
    a palette that differ in it alone all reject the document, or the lenient ones publish one text with one list of
    counts, which names the rules in their order; behind each count of zero the warning pipeline logs one warning, and
    the ignoring one none. The strict pipeline publishes the same, if no count is zero; otherwise it fails with the
    first rule that counts zero, once it has logged the rules up to that one. A rule that counts zero has left the
    text that it was given. -/
theorem publishDocument_underPolicies {palette : Palette} {options : Options} {ignoring warning strict : Pipeline}
    (hignore : Pipeline.create palette { options with onUnmatched := .ignore } = .ok ignoring)
    (hwarn : Pipeline.create palette { options with onUnmatched := .warn } = .ok warning)
    (hstrict : Pipeline.create palette { options with onUnmatched := .fail } = .ok strict) (document stem : Text) :
    ((∀ pipeline ∈ [ignoring, warning, strict],
        pipeline.publishDocument document stem = .of (.error .alreadyPublished))
      ∨ ∃ published : PublishedDocument,
        ignoring.publishDocument document stem = ⟨appliedEvents published.rules, .ok published⟩
          ∧ warning.publishDocument document stem = ⟨warnedEvents stem published.rules, .ok published⟩
          ∧ StrictEnd published (strict.publishDocument document stem)
          ∧ ((strict.publishDocument document stem).outcome = .ok published
            ↔ ∀ entry ∈ published.rules, 0 < entry.2)
          ∧ ∀ pipeline ∈ [ignoring, warning, strict], published.rules.map Prod.fst = pipeline.ruleNames)
      ∧ ∀ pipeline ∈ [ignoring, warning, strict], ∀ rule ∈ pipeline.rules, ∀ (context : DocumentContext) (t : Text),
        (rule.apply context t).replacements = 0 → (rule.apply context t).text = t := by
  refine ⟨?_, fun _ _ _ _ context t => Rule.text_of_replacements_eq_zero⟩
  obtain ⟨-, rfl⟩ := eq_of_create hignore
  obtain ⟨-, rfl⟩ := eq_of_create hwarn
  obtain ⟨-, rfl⟩ := eq_of_create hstrict
  generalize Rule.listFor palette options.variant options.remapAssetPath = rules
  -- The three pipelines start from the same source, since that depends on nothing but `force`.
  have hsame : ∀ policy, source? ⟨{ options with onUnmatched := policy }, rules⟩ document
      = source? ⟨options, rules⟩ document := fun _ => rfl
  cases hsource : source? ⟨options, rules⟩ document with
  | none =>
      have hrejected : ∀ policy, publishDocument ⟨{ options with onUnmatched := policy }, rules⟩ document stem
          = .of (.error .alreadyPublished) := fun policy =>
        publishDocument_of_source?_eq_none ((hsame policy).trans hsource) stem
      exact .inl (by simpa using ⟨hrejected .ignore, hrejected .warn, hrejected .fail⟩)
  | some source =>
      have hrun := fun policy => publishDocument_of_source? ((hsame policy).trans hsource) stem
      have hstrict := (strictEnd_applyRules (.ofDocument stem source) rules source).map
        (mark (LineEnding.ofText source))
      rw [← hrun .fail] at hstrict
      refine .inr ⟨_, ?_, ?_, hstrict, hstrict.outcome_eq_ok_iff, ?_⟩
      · rw [hrun .ignore, applyRules_ignore]
        rfl
      · rw [hrun .warn, applyRules_warn]
        rfl
      · have hnames := ruleNames_draft (.ofDocument stem source) rules source
        simpa [ruleNames] using hnames

/-- The pipeline of the built-in palette under a policy. -/
def standardUnder (policy : UnmatchedPolicy) : Pipeline :=
  ⟨{ Options.standard with onUnmatched := policy }, Rule.listFor .standard .aliased true⟩

theorem create_standardUnder (policy : UnmatchedPolicy) :
    Pipeline.create .standard { Options.standard with onUnmatched := policy } = .ok (standardUnder policy) := by
  cases policy <;> decide +kernel

/-- A stage without fills. -/
def bareStage : Text :=
  "// stage content:\na = function(mode,startPosition,loop) {}".toList

/-- The stage is bound; then there is no fill to swap, so the strict pipeline stops at the second of its five rules. -/
theorem publishDocument_underPolicies_bareStage :
    (∀ policy, Pipeline.create .standard { Options.standard with onUnmatched := policy } = .ok (standardUnder policy))
      ∧ ((standardUnder .fail).publishDocument bareStage "walk".toList).events
        = [.appliedRule .paletteAlias 1, .appliedRule .paletteColors 0]
      ∧ ∃ published : PublishedDocument,
        (standardUnder .ignore).publishDocument bareStage "walk".toList
            = ⟨appliedEvents published.rules, .ok published⟩
          ∧ (standardUnder .warn).publishDocument bareStage "walk".toList
            = ⟨warnedEvents "walk".toList published.rules, .ok published⟩
          ∧ StrictEnd published ((standardUnder .fail).publishDocument bareStage "walk".toList) := by
  have hevents : ((standardUnder .fail).publishDocument bareStage "walk".toList).events
      = [.appliedRule .paletteAlias 1, .appliedRule .paletteColors 0] := by
    decide +kernel
  obtain ⟨hrejected | ⟨published, hignore, hwarn, hstrict, -⟩, -⟩ :=
    publishDocument_underPolicies (create_standardUnder .ignore) (create_standardUnder .warn)
      (create_standardUnder .fail) bareStage "walk".toList
  · rw [hrejected _ (by simp)] at hevents
    contradiction
  · exact ⟨create_standardUnder, hevents, published, hignore, hwarn, hstrict⟩

end Pipeline

end CanvasExport
