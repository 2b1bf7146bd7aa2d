import MarkupRepair.Run.Discovery
import MarkupRepair.Run.Document
import MarkupRepair.Run.Lock

/-!
# A run over documents

A run takes the lock if it may write, finds its documents, processes one after another and
reports on all of them. What goes wrong with one document is noted in its report; only the lock
and the search end a run. Once a run is cancelled, the documents left are skipped.
-/

namespace MarkupRepair

/-- Why there is no report on a run. -/
inductive RunError where
  /-- The lock was not to be had. -/
  | lock (why : LockError)
  /-- The run itself failed. -/
  | internal (why : Failure)
  deriving DecidableEq, Repr

namespace RunError

/-- The error in words. -/
def message : RunError → String
  | .lock why => why.message
  | .internal why => why.full

/-- The exit code of a program that ends with this error. -/
def exitCode (_ : RunError) : Nat := 2

end RunError

/-- The reports on documents, and whether the run was cancelled by the end. -/
structure ProcessedDocuments where
  /-- The reports in the order of the documents. -/
  files : List FileReport
  /-- Whether the run was cancelled. -/
  cancelled : Bool
  deriving DecidableEq, Repr

/-- Whether a run that stops at the first fault stops after a document. -/
def FileReport.endsRun (f : FileReport) : Bool :=
  f.status == .restored || f.status == .processingError

/-- Process documents one after another. -/
def processDocuments (settings : RunSettings) (cancelled : Bool) :
    List Path → Script ProcessedDocuments
  | [] => return ⟨[], cancelled⟩
  | path :: rest => do
      let report ←
        if cancelled then pure (FileReport.ofSkipped path) else processDocument settings path
      let cancelled := cancelled || (settings.failFast && report.endsRun)
      let others ← processDocuments settings cancelled rest
      return { others with files := report :: others.files }

/-- How a run ended. -/
structure RunOutcome where
  /-- The report. -/
  report : Except RunError RunReport
  /-- Whether the run was cancelled. -/
  cancelled : Bool

/-- Find and process the documents of a run that began at an instant. -/
def runDocuments (settings : RunSettings) (source : DocumentSource) (tool : ToolInfo)
    (cancelled : Bool) (started : Instant) : Script RunOutcome := do
  match ← source.documents.run with
  | .error why => return ⟨.error (.internal (why.inContext "discover documents")), cancelled⟩
  | .ok paths =>
      let processed ← processDocuments settings cancelled paths
      let ended ← Script.request .now
      let run : RunInfo :=
        { startedAt := started.toText
          endedAt := some ended.toText
          durationMs := some (started.millisecondsUntil ended)
          root := settings.root
          dryRun := settings.dryRun
          repair := settings.repair }
      return ⟨.ok (RunReport.ofFiles tool run processed.files), processed.cancelled⟩

/-- Make a run, under the lock if it may write documents. -/
def run (settings : RunSettings) (source : DocumentSource) (tool : ToolInfo)
    (cancelled : Bool) : Script RunOutcome := do
  let started ← Script.request .now
  if settings.writesDocuments then
    match ← RunLock.acquire settings.root with
    | .error why => return ⟨.error (.lock why), cancelled⟩
    | .ok () =>
        let outcome ← runDocuments settings source tool cancelled started
        RunLock.release settings.root
        return outcome
  else runDocuments settings source tool cancelled started

end MarkupRepair
