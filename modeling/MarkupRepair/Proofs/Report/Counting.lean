import Mathlib
import MarkupRepair.Report.Run

/-!
# Counting documents one by one

Taking in a document adds its own totals to those so far, counter by counter. So a total that adds
up over sets of documents is the sum over the documents.
-/

namespace MarkupRepair

namespace RunSummary

/-- One, when a condition holds. -/
def tally (holds : Bool) : Nat := if holds then 1 else 0

/-- What one document adds to each total. -/
def ofFile (f : FileReport) : RunSummary where
  filesProcessed := tally (f.status != .skipped)
  errorsFound := f.issues.countP (·.severity.isError)
  warningsFound := f.issues.countP (·.severity == .warning)
  fixesApplied := if f.status.isCommitted then f.fixesApplied else 0
  filesValid := tally (f.status == .valid)
  filesRepaired := tally f.status.isCommitted
  filesWouldRepair := tally (f.status == .wouldRepair)
  filesUnresolved := tally (f.status == .unresolved)
  filesRejected := tally (f.status == .rejected)
  filesRestored := tally (f.status == .restored)
  filesFailed := tally (f.status == .processingError)
  filesSkipped := tally (f.status == .skipped)

/-- Issues are counted as errors and as warnings, and nothing else is. -/
theorem foldl_countIssue (issues : List Issue) (s : RunSummary) :
    issues.foldl countIssue s =
      { s with
        errorsFound := s.errorsFound + issues.countP (·.severity.isError)
        warningsFound := s.warningsFound + issues.countP (·.severity == .warning) } := by
  induction issues generalizing s with
  | nil => rfl
  | cons i rest ih =>
      rw [List.foldl_cons, ih, List.countP_cons, List.countP_cons]
      cases h : i.severity <;>
        simp [countIssue, h, Severity.isError, Nat.add_assoc, Nat.add_comm 1]

/-- Taking in a document is merging with what it adds to each total. -/
theorem absorb_eq_merge (s : RunSummary) (f : FileReport) : s.absorb f = s.merge (ofFile f) := by
  simp only [absorb, foldl_countIssue]
  cases h : f.status <;>
    simp [merge, ofFile, countStatus, tally, FileStatus.isCommitted, h]

section Totals

variable (total : RunSummary → Nat) (hzero : total {} = 0)
  (hmerge : ∀ a b, total (a.merge b) = total a + total b)

include hzero hmerge

/-- A total that adds up over sets of documents is the sum over the documents. -/
theorem total_ofFiles (files : List FileReport) :
    total (ofFiles files) = (files.map fun f => total (ofFile f)).sum := by
  have hfold : ∀ (files : List FileReport) (s : RunSummary),
      total (files.foldl absorb s) = total s + (files.map fun f => total (ofFile f)).sum := by
    intro files
    induction files with
    | nil => simp
    | cons f rest ih =>
        intro s
        rw [List.foldl_cons, ih, absorb_eq_merge, hmerge, List.map_cons, List.sum_cons,
          Nat.add_assoc]
  rw [ofFiles, hfold, hzero, Nat.zero_add]

/-- A total over the documents of one status is zero exactly when no document has it. -/
theorem total_ofFiles_eq_zero_iff {status : FileStatus}
    (hfile : ∀ f, total (ofFile f) = tally (f.status == status)) (files : List FileReport) :
    total (ofFiles files) = 0 ↔ ∀ f ∈ files, f.status ≠ status := by
  have htally : ∀ f : FileReport, tally (f.status == status) = 0 ↔ f.status ≠ status := by
    intro f
    by_cases h : f.status = status <;> simp [tally, h]
  rw [total_ofFiles total hzero hmerge, List.sum_eq_zero_iff_forall_eq_nat, List.forall_mem_map]
  simp only [hfile, htally]

end Totals

end RunSummary

end MarkupRepair
