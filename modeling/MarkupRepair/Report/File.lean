import MarkupRepair.Issue.Basic
import MarkupRepair.Repair.Plan

/-!
# Reports on files

What became of one document, and the running totals over documents.
-/

namespace MarkupRepair

/-- Where a document ended up. -/
inductive FileStatus where
  /-- No issues. -/
  | valid
  /-- Repaired and stored; no error or fatal issue remains. -/
  | repaired
  /-- Repaired and stored; errors remain. -/
  | partiallyRepaired
  /-- Issues were found and nothing was changed. -/
  | unresolved
  /-- A verified repair exists but was not to be stored. -/
  | wouldRepair
  /-- The repaired text failed verification and was not stored. -/
  | rejected
  /-- The repair was stored, could not be confirmed, and was undone. -/
  | restored
  /-- The document could not be read or written. -/
  | processingError
  /-- The run was cancelled before its turn. -/
  | skipped
  deriving DecidableEq, Repr

namespace FileStatus

/-- All statuses. -/
def all : List FileStatus :=
  [.valid, .repaired, .partiallyRepaired, .unresolved, .wouldRepair, .rejected, .restored,
    .processingError, .skipped]

/-- The status in reports. -/
def name : FileStatus → String
  | .valid => "valid"
  | .repaired => "repaired"
  | .partiallyRepaired => "partial"
  | .unresolved => "unresolved"
  | .wouldRepair => "would_repair"
  | .rejected => "rejected"
  | .restored => "restored"
  | .processingError => "processing_error"
  | .skipped => "skipped"

/-- The status with a given name. -/
def ofName? (s : String) : Option FileStatus := all.find? (·.name == s)

/-- Whether the document was changed on the store. -/
def isCommitted (s : FileStatus) : Bool := s == .repaired || s == .partiallyRepaired

end FileStatus

/-- What became of one document. -/
structure FileReport where
  /-- The document, relative to the root of the run. -/
  path : String
  /-- Where it ended up. -/
  status : FileStatus
  /-- The issues of the document as it was read. -/
  issues : List Issue := []
  /-- Number of fixes. -/
  fixesApplied : Nat := 0
  /-- The issues of the document as the run left it, or would leave it. -/
  issuesRemaining : List Issue := []
  /-- The fixes. -/
  applied : List AppliedFix := []
  /-- Digest of the document as it was read. -/
  sha256Before : Option String := none
  /-- Digest of the repaired document. -/
  sha256After : Option String := none
  /-- Why the document could not be processed. -/
  error : Option String := none
  /-- A remark. -/
  note : Option String := none
  /-- The patch that a run without changes would make. -/
  patch : Option String := none
  deriving DecidableEq, Repr

namespace FileReport

/-- The report on a document that could not be processed. -/
def ofError (path error : String) : FileReport :=
  { path, status := .processingError, error := some error }

/-- The report on a document that was skipped. -/
def ofSkipped (path : String) : FileReport :=
  { path, status := .skipped, note := some "run cancelled before this file started" }

/-- Whether other checkers may rely on the structure of the document. -/
def structurallyValid (f : FileReport) : Bool :=
  !(f.status == .processingError || f.status == .skipped) && !f.issuesRemaining.any Issue.isFatal

/-- Whether an error or a fatal issue remains. -/
def hasErrors (f : FileReport) : Bool := f.issuesRemaining.any (·.severity.isError)

/-- Whether someone has to look at the document. -/
def needsAttention (f : FileReport) : Bool :=
  match f.status with
  | .rejected | .restored | .skipped | .processingError => true
  | _ => f.hasErrors

end FileReport

/-- Totals over documents. -/
structure RunSummary where
  /-- Documents that were not skipped. -/
  filesProcessed : Nat := 0
  /-- Errors and fatal issues found. -/
  errorsFound : Nat := 0
  /-- Warnings found. -/
  warningsFound : Nat := 0
  /-- Fixes that were stored. -/
  fixesApplied : Nat := 0
  /-- Documents without issues. -/
  filesValid : Nat := 0
  /-- Documents repaired, wholly or in part. -/
  filesRepaired : Nat := 0
  /-- Documents with a repair that was not to be stored. -/
  filesWouldRepair : Nat := 0
  /-- Documents left with issues. -/
  filesUnresolved : Nat := 0
  /-- Documents whose repair was rejected. -/
  filesRejected : Nat := 0
  /-- Documents whose repair was undone. -/
  filesRestored : Nat := 0
  /-- Documents that could not be processed. -/
  filesFailed : Nat := 0
  /-- Documents that were skipped. -/
  filesSkipped : Nat := 0
  deriving DecidableEq, Repr

namespace RunSummary

/-- The totals of two sets of documents together. -/
def merge (a b : RunSummary) : RunSummary where
  filesProcessed := a.filesProcessed + b.filesProcessed
  errorsFound := a.errorsFound + b.errorsFound
  warningsFound := a.warningsFound + b.warningsFound
  fixesApplied := a.fixesApplied + b.fixesApplied
  filesValid := a.filesValid + b.filesValid
  filesRepaired := a.filesRepaired + b.filesRepaired
  filesWouldRepair := a.filesWouldRepair + b.filesWouldRepair
  filesUnresolved := a.filesUnresolved + b.filesUnresolved
  filesRejected := a.filesRejected + b.filesRejected
  filesRestored := a.filesRestored + b.filesRestored
  filesFailed := a.filesFailed + b.filesFailed
  filesSkipped := a.filesSkipped + b.filesSkipped

/-- The totals with one more issue. -/
def countIssue (s : RunSummary) (i : Issue) : RunSummary :=
  match i.severity with
  | .warning => { s with warningsFound := s.warningsFound + 1 }
  | .error | .fatal => { s with errorsFound := s.errorsFound + 1 }

/-- The totals with one more document of a status. -/
def countStatus (s : RunSummary) : FileStatus → RunSummary
  | .valid => { s with filesValid := s.filesValid + 1 }
  | .repaired | .partiallyRepaired => { s with filesRepaired := s.filesRepaired + 1 }
  | .wouldRepair => { s with filesWouldRepair := s.filesWouldRepair + 1 }
  | .unresolved => { s with filesUnresolved := s.filesUnresolved + 1 }
  | .rejected => { s with filesRejected := s.filesRejected + 1 }
  | .restored => { s with filesRestored := s.filesRestored + 1 }
  | .processingError => { s with filesFailed := s.filesFailed + 1 }
  | .skipped => { s with filesSkipped := s.filesSkipped + 1 }

/-- The totals with one more document. Fixes count only when they were stored. -/
def absorb (s : RunSummary) (f : FileReport) : RunSummary :=
  let s := if f.status != .skipped then { s with filesProcessed := s.filesProcessed + 1 } else s
  let s := f.issues.foldl countIssue s
  let s :=
    if f.status.isCommitted then { s with fixesApplied := s.fixesApplied + f.fixesApplied } else s
  s.countStatus f.status

/-- The totals of a list of documents. -/
def ofFiles (files : List FileReport) : RunSummary := files.foldl absorb {}

end RunSummary

end MarkupRepair
