import MarkupRepair.Report.File

/-!
# Reports on runs

The report on a run holds the reports on its documents in the order of their paths, the
totals, and a verdict drawn from both.
-/

namespace MarkupRepair

/-- The program that made a report. -/
structure ToolInfo where
  /-- Its name. -/
  name : String
  /-- Its version. -/
  version : Option String := none
  deriving DecidableEq, Repr

/-- When and how a run was made. -/
structure RunInfo where
  /-- When it began. -/
  startedAt : String
  /-- When it ended. -/
  endedAt : Option String := none
  /-- How long it took, in milliseconds. -/
  durationMs : Option Nat := none
  /-- The root of the documents. -/
  root : String
  /-- Whether nothing was to be stored. -/
  dryRun : Bool
  /-- Whether documents were to be repaired. -/
  repair : Bool
  deriving DecidableEq, Repr

/-- The outcome of a run as a whole. -/
inductive VerdictStatus where
  | pass
  | fail
  | error
  deriving DecidableEq, Repr

namespace VerdictStatus

/-- The outcome in reports. -/
def name : VerdictStatus → String
  | .pass => "pass"
  | .fail => "fail"
  | .error => "error"

/-- The outcome with a given name. -/
def ofName? : String → Option VerdictStatus
  | "pass" => some .pass
  | "fail" => some .fail
  | "error" => some .error
  | _ => none

end VerdictStatus

/-- The outcome of a run and the reasons for it. -/
structure Verdict where
  /-- The outcome. -/
  status : VerdictStatus
  /-- Why the run did not pass. -/
  reasons : List String := []
  deriving DecidableEq, Repr

/-- The exit code for a verdict. -/
def Verdict.exitCode (v : Verdict) : Nat :=
  match v.status with
  | .pass => 0
  | .fail => 1
  | .error => 2

namespace FileReport

/-- Whether a document was left, or would be left, with errors although nothing went wrong
with it. -/
def isUnresolved (f : FileReport) : Bool :=
  match f.status with
  | .processingError | .skipped | .rejected | .restored => false
  | _ => f.needsAttention

end FileReport

namespace Verdict

/-- The reasons that the totals and the documents give, in a fixed order. -/
def reasonsFor (summary : RunSummary) (files : List FileReport) : List String :=
  let given := fun (holds : Bool) (reason : String) => if holds then [reason] else []
  given (0 < summary.filesFailed) "processing_errors" ++
    given (0 < summary.filesRestored) "restored_after_failed_verification" ++
    given (0 < summary.filesRejected) "repair_rejected" ++
    given (0 < summary.filesSkipped) "cancelled" ++
    given (0 < summary.filesWouldRepair) "repairs_pending" ++
    given (files.any FileReport.isUnresolved) "unresolved_issues"

/-- The verdict on a run: an error when some document could not be processed, otherwise a
pass when there is no reason against it. -/
def ofFiles (summary : RunSummary) (files : List FileReport) : Verdict :=
  let reasons := reasonsFor summary files
  { status :=
      if 0 < summary.filesFailed then .error else if reasons.isEmpty then .pass else .fail
    reasons }

end Verdict

/-- The name of the report format. -/
def reportSchema : String := "xhtmlfix.report.v1"

/-- The report on a run. -/
structure RunReport where
  /-- The name of the format. -/
  schema : String
  /-- The program. -/
  tool : ToolInfo
  /-- The run. -/
  run : RunInfo
  /-- The totals. -/
  summary : RunSummary
  /-- The verdict. -/
  verdict : Verdict
  /-- The documents. -/
  files : List FileReport
  deriving DecidableEq, Repr

namespace RunReport

/-- The reports on documents in the order of their paths; the sort is stable. -/
def sortFiles (files : List FileReport) : List FileReport :=
  files.mergeSort fun a b => !decide (b.path < a.path)

/-- The report on a run over documents. -/
def ofFiles (tool : ToolInfo) (run : RunInfo) (files : List FileReport) : RunReport :=
  let files := sortFiles files
  let summary := RunSummary.ofFiles files
  { schema := reportSchema, tool, run, summary, verdict := Verdict.ofFiles summary files, files }

/-- The exit code for a report. -/
def exitCode (r : RunReport) : Nat := r.verdict.exitCode

/-- The patches of all documents, one after another. -/
def patch (r : RunReport) : String := String.join (r.files.filterMap (·.patch))

end RunReport

end MarkupRepair
