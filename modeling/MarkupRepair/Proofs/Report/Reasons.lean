import MarkupRepair.Proofs.Report.Verdict

/-!
# The verdict read off the documents

The verdict is drawn from the totals and from one more pass over the documents. Both say the same
of a document: its status gives at most one reason against a pass, and the errors that are left in
it give another one where its status gives none that rules them out. The reasons of a run are those
of its documents in a fixed order, and its exit code tells whether a document could not be processed
and whether any gives a reason.
-/

namespace MarkupRepair

/-- What stands against a pass. -/
inductive Reason where
  /-- A document could not be processed. -/
  | processingErrors
  /-- A repair was undone. -/
  | restored
  /-- A repair was rejected. -/
  | rejected
  /-- A document was skipped. -/
  | cancelled
  /-- A repair was not to be stored. -/
  | pending
  /-- A document was left with errors, or would be. -/
  | unresolved
  deriving DecidableEq, Repr

namespace Reason

/-- The reason in reports. -/
def name : Reason → String
  | processingErrors => "processing_errors"
  | restored => "restored_after_failed_verification"
  | rejected => "repair_rejected"
  | cancelled => "cancelled"
  | pending => "repairs_pending"
  | unresolved => "unresolved_issues"

/-- All reasons in the order of reports. -/
def all : List Reason := [processingErrors, restored, rejected, cancelled, pending, unresolved]

/-- Whether a document gives the reason. -/
def concerns (f : FileReport) : Reason → Bool
  | processingErrors => f.status == .processingError
  | restored => f.status == .restored
  | rejected => f.status == .rejected
  | cancelled => f.status == .skipped
  | pending => f.status == .wouldRepair
  | unresolved => f.isUnresolved

theorem mem_all (r : Reason) : r ∈ all := by
  cases r <;> decide

theorem name_injective : Function.Injective name := by
  intro r s
  cases r <;> cases s <;> simp [name]

end Reason

namespace FileReport

variable {f : FileReport}

/-- Whether an error or a fatal issue remains in a document. -/
def LeavesErrors (f : FileReport) : Prop :=
  ∃ i ∈ f.issuesRemaining, i.severity = .error ∨ i.severity = .fatal

theorem hasErrors_iff : f.hasErrors = true ↔ f.LeavesErrors := by
  have hsevere : ∀ s : Severity, s.isError = true ↔ s = .error ∨ s = .fatal := by
    intro s
    cases s <;> decide
  simp only [hasErrors, List.any_eq_true, hsevere, LeavesErrors]

/-- Errors count in a document that was processed to its end and whose repair was not refused. -/
theorem isUnresolved_iff : f.isUnresolved = true ↔
    f.status ∈ [.valid, .repaired, .partiallyRepaired, .unresolved, .wouldRepair] ∧
      f.LeavesErrors := by
  rw [← hasErrors_iff]
  cases h : f.status <;> simp [isUnresolved, needsAttention, h]

/-- Whether a document that could be processed stands against a pass. -/
def FallsShort (f : FileReport) : Prop :=
  f.status ∈ [.restored, .rejected, .skipped, .wouldRepair] ∨
    f.status ∈ [.valid, .repaired, .partiallyRepaired, .unresolved] ∧ f.LeavesErrors

/-- A document passes when it could be processed and does not stand against a pass. -/
theorem passes_iff_not_fallsShort :
    f.passes = true ↔ f.status ≠ .processingError ∧ ¬ f.FallsShort := by
  rw [FallsShort, ← hasErrors_iff]
  cases h : f.status <;> simp [passes, h]

end FileReport

namespace RunSummary

/-- A total over the documents of one status is positive when some document has the status. -/
theorem decide_total_pos (total : RunSummary → Nat) (hzero : total {} = 0)
    (hmerge : ∀ a b, total (a.merge b) = total a + total b) {status : FileStatus}
    (hfile : ∀ f, total (ofFile f) = tally (f.status == status)) (files : List FileReport) :
    decide (0 < total (ofFiles files)) = files.any (·.status == status) := by
  rw [Bool.eq_iff_iff, decide_eq_true_eq, Nat.pos_iff_ne_zero, ne_eq,
    total_ofFiles_eq_zero_iff total hzero hmerge hfile, List.any_eq_true]
  simp

end RunSummary

namespace Verdict

variable {files : List FileReport}

/-- The reasons of a run are those that its documents give, in the order of reports. -/
theorem reasonsFor_eq (files : List FileReport) :
    reasonsFor (RunSummary.ofFiles files) files =
      (Reason.all.filter fun r => files.any r.concerns).map Reason.name := by
  have hfailed := RunSummary.decide_total_pos (·.filesFailed) rfl (fun _ _ => rfl)
    (fun _ => rfl) files
  have hrestored := RunSummary.decide_total_pos (·.filesRestored) rfl (fun _ _ => rfl)
    (fun _ => rfl) files
  have hrejected := RunSummary.decide_total_pos (·.filesRejected) rfl (fun _ _ => rfl)
    (fun _ => rfl) files
  have hskipped := RunSummary.decide_total_pos (·.filesSkipped) rfl (fun _ _ => rfl)
    (fun _ => rfl) files
  have hpending := RunSummary.decide_total_pos (·.filesWouldRepair) rfl (fun _ _ => rfl)
    (fun _ => rfl) files
  have hkept : ∀ (holds : Reason → Bool) (reasons : List Reason),
      (reasons.filter holds).map Reason.name =
        reasons.flatMap fun r => if holds r then [r.name] else [] := by
    intro holds reasons
    induction reasons with
    | nil => rfl
    | cons r reasons ih =>
        rw [List.filter_cons, List.flatMap_cons, ← ih]
        split <;> rfl
  rw [hkept]
  simp only [reasonsFor, hfailed, hrestored, hrejected, hskipped, hpending, Reason.all,
    List.flatMap_cons, List.flatMap_nil, List.append_nil, List.append_assoc]
  rfl

/-- A reason stands in the verdict when some document gives it. -/
theorem name_mem_reasonsFor_iff (r : Reason) :
    r.name ∈ reasonsFor (RunSummary.ofFiles files) files ↔ ∃ f ∈ files, r.concerns f = true := by
  rw [reasonsFor_eq, List.mem_map_of_injective Reason.name_injective, List.mem_filter,
    List.any_eq_true]
  exact and_iff_right r.mem_all

/-- The exit code is 2 when some document could not be processed. -/
theorem exitCode_eq_two_iff :
    (ofFiles (RunSummary.ofFiles files) files).exitCode = 2 ↔
      ∃ f ∈ files, f.status = .processingError := by
  have hfailed := RunSummary.decide_total_pos (·.filesFailed) rfl (fun _ _ => rfl)
    (fun _ => rfl) files
  have hexists : 0 < (RunSummary.ofFiles files).filesFailed ↔
      ∃ f ∈ files, f.status = .processingError := by
    simpa using Bool.eq_iff_iff.mp hfailed
  rw [← hexists]
  by_cases h : 0 < (RunSummary.ofFiles files).filesFailed
  · simp [ofFiles, exitCode, h]
  · by_cases hreasons : reasonsFor (RunSummary.ofFiles files) files = []
    · simp [ofFiles, exitCode, h, hreasons]
    · simp [ofFiles, exitCode, h, hreasons]

/-- The exit code is 0 when every document could be processed and none stands against a pass. -/
theorem exitCode_eq_zero_iff :
    (ofFiles (RunSummary.ofFiles files) files).exitCode = 0 ↔
      ¬ (∃ f ∈ files, f.status = .processingError) ∧ ¬ ∃ f ∈ files, f.FallsShort := by
  rw [exitCode_ofFiles_eq_zero_iff]
  simp only [FileReport.passes_iff_not_fallsShort, not_exists, not_and]
  exact ⟨fun h => ⟨fun f hf => (h f hf).1, fun f hf => (h f hf).2⟩,
    fun h f hf => ⟨h.1 f hf, h.2 f hf⟩⟩

/-- There is no other exit code than 0, 1 and 2. -/
theorem exitCode_eq_one_iff {v : Verdict} :
    v.exitCode = 1 ↔ v.exitCode ≠ 2 ∧ v.exitCode ≠ 0 := by
  unfold exitCode
  cases v.status <;> decide

end Verdict

namespace RunReport

/-- Sorting keeps the documents. -/
theorem exists_mem_sortFiles_iff {files : List FileReport} {P : FileReport → Prop} :
    (∃ f ∈ sortFiles files, P f) ↔ ∃ f ∈ files, P f := by
  simp only [sortFiles, List.mem_mergeSort]

/-- The verdict of a run is what its documents say, one by one. The exit code is 2 exactly when
some document could not be processed, otherwise 1 exactly when some document stands against a pass
by its status or by the errors left in it, and otherwise 0. There is no reason exactly when the exit
code is 0, and each reason is given exactly when some document gives it. -/
theorem verdict_ofFiles (tool : ToolInfo) (run : RunInfo) (files : List FileReport) :
    let report := RunReport.ofFiles tool run files
    let failed := ∃ f ∈ files, f.status = .processingError
    let short := ∃ f ∈ files, f.FallsShort
    (report.exitCode = 2 ↔ failed) ∧ (report.exitCode = 1 ↔ ¬ failed ∧ short) ∧
      (report.exitCode = 0 ↔ ¬ failed ∧ ¬ short) ∧
      (report.verdict.reasons = [] ↔ report.exitCode = 0) ∧
      ("processing_errors" ∈ report.verdict.reasons ↔ failed) ∧
      ("restored_after_failed_verification" ∈ report.verdict.reasons ↔
        ∃ f ∈ files, f.status = .restored) ∧
      ("repair_rejected" ∈ report.verdict.reasons ↔ ∃ f ∈ files, f.status = .rejected) ∧
      ("cancelled" ∈ report.verdict.reasons ↔ ∃ f ∈ files, f.status = .skipped) ∧
      ("repairs_pending" ∈ report.verdict.reasons ↔ ∃ f ∈ files, f.status = .wouldRepair) ∧
      ("unresolved_issues" ∈ report.verdict.reasons ↔ ∃ f ∈ files,
        f.status ∈ [.valid, .repaired, .partiallyRepaired, .unresolved, .wouldRepair] ∧
          f.LeavesErrors) ∧
      report.verdict.reasons.Sublist (Reason.all.map Reason.name) := by
  intro report failed short
  have htwo : report.exitCode = 2 ↔ failed :=
    Verdict.exitCode_eq_two_iff.trans exists_mem_sortFiles_iff
  have hzero : report.exitCode = 0 ↔ ¬ failed ∧ ¬ short :=
    Verdict.exitCode_eq_zero_iff.trans
      (and_congr exists_mem_sortFiles_iff.not exists_mem_sortFiles_iff.not)
  have hone : report.exitCode = 1 ↔ ¬ failed ∧ short := by
    have hother : report.exitCode = 1 ↔ report.exitCode ≠ 2 ∧ report.exitCode ≠ 0 :=
      Verdict.exitCode_eq_one_iff
    rw [hother, ne_eq, ne_eq, htwo, hzero, not_and_not_right]
    exact and_congr_right fun hnot => ⟨fun h => h hnot, fun h _ => h⟩
  have hreasons : report.verdict.reasons = [] ↔ report.exitCode = 0 :=
    Verdict.reasonsFor_eq_nil_iff.trans Verdict.exitCode_ofFiles_eq_zero_iff.symm
  have hgiven : ∀ r : Reason, r.name ∈ report.verdict.reasons ↔
      ∃ f ∈ files, r.concerns f = true := fun r =>
    (Verdict.name_mem_reasonsFor_iff r).trans exists_mem_sortFiles_iff
  have hstatus : ∀ (r : Reason) (status : FileStatus),
      (∀ f, r.concerns f = (f.status == status)) →
        (r.name ∈ report.verdict.reasons ↔ ∃ f ∈ files, f.status = status) := by
    intro r status hr
    simp only [hgiven, hr, beq_iff_eq]
  refine ⟨htwo, hone, hzero, hreasons, hstatus .processingErrors _ fun _ => rfl,
    hstatus .restored _ fun _ => rfl, hstatus .rejected _ fun _ => rfl,
    hstatus .cancelled _ fun _ => rfl, hstatus .pending _ fun _ => rfl, ?_, ?_⟩
  · refine (hgiven .unresolved).trans ?_
    simp only [Reason.concerns, FileReport.isUnresolved_iff]
  · have hlist : report.verdict.reasons = _ := Verdict.reasonsFor_eq (sortFiles files)
    rw [hlist]
    exact List.filter_sublist.map _

end RunReport

end MarkupRepair
