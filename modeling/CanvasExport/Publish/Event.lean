/-
Module: CanvasExport.Publish.Event
Layer: Publish
Purpose: What is reported while a document is published. Events are part of the result: a run gives back its
  events in order together with its outcome, whether it succeeds or not.
Main exports: Event, Event.line, Event.warning?, Logged
-/
import CanvasExport.Publish.Error
import CanvasExport.Text.Shown

namespace CanvasExport

inductive Event where
  | appliedRule (rule : RuleName) (replacements : Nat)
  | unmatchedRule (rule : RuleName) (stem : Text)
  | alreadyPublished
  | wroteBackup (path : Path)
  | published
deriving DecidableEq, Repr, Inhabited

inductive Level where
  | debug
  | info
  | warn
deriving DecidableEq, Repr, Inhabited

namespace Event

def level : Event → Level
  | .appliedRule _ _ => .debug
  | .unmatchedRule _ _ => .warn
  | .alreadyPublished => .warn
  | .wroteBackup _ => .debug
  | .published => .info

def message : Event → Text
  | .appliedRule _ _ => "applied rule".toList
  | .unmatchedRule _ _ => "rule found nothing to rewrite".toList
  | .alreadyPublished => "already published, skipping".toList
  | .wroteBackup _ => "wrote backup".toList
  | .published => "published".toList

/-- The named values of an event, as they are and as they are shown in a log. -/
def values : Event → List (Text × Text × Text)
  | .appliedRule rule replacements =>
    let n := Text.numeral replacements
    [("rule".toList, rule.text, Text.shown rule.text), ("replacements".toList, n, n)]
  | .unmatchedRule rule stem =>
    [("rule".toList, rule.text, Text.shown rule.text), ("file_stem".toList, stem, Text.shown stem)]
  | .wroteBackup path =>
    let shown := Text.lossy path
    [("backup".toList, shown, shown)]
  | .alreadyPublished | .published => []

def levelText : Level → Text
  | .debug => "DEBUG".toList
  | .info => "INFO".toList
  | .warn => "WARN".toList

/-- The event on one line, with its values as they are. -/
def line (e : Event) : Text :=
  levelText e.level ++ [' '] ++ e.message
    ++ e.values.flatMap fun (name, value, _) => [' '] ++ name ++ ['='] ++ value

/-- The log line of a warning, with its values shown between quotes. -/
def warning? (e : Event) : Option Text :=
  if e.level = .warn then
    some ("animate_publish::pipeline: ".toList ++ e.message
      ++ e.values.flatMap fun (name, _, value) => [' '] ++ name ++ ['='] ++ value)
  else
    none

end Event

/-- The events of a run and what came of it. -/
structure Logged (α : Type) where
  events : List Event
  outcome : Except PublishError α

namespace Logged

/-- A run without events. -/
def of {α : Type} (outcome : Except PublishError α) : Logged α :=
  ⟨[], outcome⟩

/-- The run with earlier events in front of its own. -/
def after {α : Type} (earlier : List Event) (run : Logged α) : Logged α :=
  ⟨earlier ++ run.events, run.outcome⟩

/-- The run with its value changed. -/
def map {α β : Type} (f : α → β) (run : Logged α) : Logged β :=
  ⟨run.events, run.outcome.map f⟩

end Logged

end CanvasExport
