import MarkupRepair.Proofs.Report.Counting

/-!
# What an exit code says about the documents

The totals of a run count the documents of every status, so the verdict can be read off the
reports one by one: the exit code is zero exactly when every document passes.
-/

namespace MarkupRepair

/-- Whether a document speaks for a verdict of pass: it was processed to its end and no error
remains in it. -/
def FileReport.passes (f : FileReport) : Bool :=
  match f.status with
  | .valid | .repaired | .partiallyRepaired | .unresolved => !f.hasErrors
  | _ => false

/-- A document passes when its status is none of those that stand against a pass by themselves
and it was not left with errors. -/
theorem FileReport.passes_iff {f : FileReport} :
    f.passes = true ↔ f.status ≠ .processingError ∧ f.status ≠ .restored ∧
      f.status ≠ .rejected ∧ f.status ≠ .skipped ∧ f.status ≠ .wouldRepair ∧
      f.isUnresolved = false := by
  cases h : f.status <;> simp [passes, isUnresolved, needsAttention, h]

namespace Verdict

open RunSummary (total_ofFiles_eq_zero_iff)

/-- There is no reason against a pass exactly when every document passes. -/
theorem reasonsFor_eq_nil_iff {files : List FileReport} :
    reasonsFor (RunSummary.ofFiles files) files = [] ↔ ∀ f ∈ files, f.passes = true := by
  have hfailed := total_ofFiles_eq_zero_iff (·.filesFailed) rfl (fun _ _ => rfl)
    (fun _ => rfl) files
  have hrestored := total_ofFiles_eq_zero_iff (·.filesRestored) rfl (fun _ _ => rfl)
    (fun _ => rfl) files
  have hrejected := total_ofFiles_eq_zero_iff (·.filesRejected) rfl (fun _ _ => rfl)
    (fun _ => rfl) files
  have hskipped := total_ofFiles_eq_zero_iff (·.filesSkipped) rfl (fun _ _ => rfl)
    (fun _ => rfl) files
  have hpending := total_ofFiles_eq_zero_iff (·.filesWouldRepair) rfl (fun _ _ => rfl)
    (fun _ => rfl) files
  simp only [reasonsFor, List.append_eq_nil_iff, ite_eq_right_iff, reduceCtorEq, imp_false,
    decide_eq_true_eq, Nat.not_lt, Nat.le_zero, hfailed, hrestored, hrejected, hskipped, hpending,
    Bool.not_eq_true, List.any_eq_false, FileReport.passes_iff]
  constructor
  · rintro ⟨⟨⟨⟨⟨h₁, h₂⟩, h₃⟩, h₄⟩, h₅⟩, h₆⟩ f hf
    exact ⟨h₁ f hf, h₂ f hf, h₃ f hf, h₄ f hf, h₅ f hf, h₆ f hf⟩
  · intro h
    refine ⟨⟨⟨⟨⟨?_, ?_⟩, ?_⟩, ?_⟩, ?_⟩, ?_⟩
    · exact fun f hf => (h f hf).1
    · exact fun f hf => (h f hf).2.1
    · exact fun f hf => (h f hf).2.2.1
    · exact fun f hf => (h f hf).2.2.2.1
    · exact fun f hf => (h f hf).2.2.2.2.1
    · exact fun f hf => (h f hf).2.2.2.2.2

/-- The exit code for a set of documents is zero exactly when every document passes. -/
theorem exitCode_ofFiles_eq_zero_iff {files : List FileReport} :
    (ofFiles (RunSummary.ofFiles files) files).exitCode = 0 ↔ ∀ f ∈ files, f.passes = true := by
  rw [← reasonsFor_eq_nil_iff]
  by_cases hfailed : 0 < (RunSummary.ofFiles files).filesFailed
  · simp [ofFiles, exitCode, reasonsFor, hfailed]
  · by_cases hreasons : reasonsFor (RunSummary.ofFiles files) files = []
    · simp [ofFiles, exitCode, hfailed, hreasons]
    · simp [ofFiles, exitCode, hfailed, hreasons]

end Verdict

/-- The exit code for a report is zero exactly when every document passes. -/
theorem RunReport.exitCode_ofFiles_eq_zero_iff {tool : ToolInfo} {run : RunInfo}
    {files : List FileReport} :
    (RunReport.ofFiles tool run files).exitCode = 0 ↔ ∀ f ∈ files, f.passes = true := by
  have hsorted : (∀ f ∈ sortFiles files, f.passes = true) ↔ ∀ f ∈ files, f.passes = true := by
    simp only [sortFiles, List.mem_mergeSort]
  exact Verdict.exitCode_ofFiles_eq_zero_iff.trans hsorted

end MarkupRepair
