import MarkupRepair.Proofs.Report.Verdict

/-!
# Totals and reports whatever the order of the documents

Totals add up field by field, so merging them is associative and commutative, and documents may be
taken in one by one or in parts, in any order. Reports on different documents are sorted by their
paths in one way only. So the report on a run does not depend on the order in which its documents
were completed.
-/

namespace MarkupRepair

namespace RunSummary

theorem merge_comm (a b : RunSummary) : a.merge b = b.merge a := by
  simp only [merge, Nat.add_comm]

theorem merge_assoc (a b c : RunSummary) : (a.merge b).merge c = a.merge (b.merge c) := by
  simp only [merge, Nat.add_assoc]

@[simp] theorem merge_empty (s : RunSummary) : s.merge {} = s := rfl

@[simp] theorem empty_merge (s : RunSummary) : ({} : RunSummary).merge s = s := by
  rw [merge_comm, merge_empty]

/-- Taking in documents one by one adds the totals of all of them. -/
theorem foldl_absorb (files : List FileReport) (s : RunSummary) :
    files.foldl absorb s = s.merge (ofFiles files) := by
  induction files generalizing s with
  | nil => rfl
  | cons f rest ih =>
      calc (f :: rest).foldl absorb s
        _ = (s.absorb f).merge (ofFiles rest) := ih _
        _ = (s.merge (ofFile f)).merge (ofFiles rest) := by rw [absorb_eq_merge]
        _ = s.merge ((ofFile f).merge (ofFiles rest)) := merge_assoc _ _ _
        _ = s.merge (ofFiles (f :: rest)) := by
          rw [ofFiles.eq_def (f :: rest), List.foldl_cons, ih, absorb_eq_merge, empty_merge]

theorem ofFiles_append (files others : List FileReport) :
    ofFiles (files ++ others) = (ofFiles files).merge (ofFiles others) := by
  rw [ofFiles, List.foldl_append, foldl_absorb others]
  rfl

/-- The order of the documents does not matter to their totals. -/
theorem ofFiles_eq_of_perm {files files' : List FileReport} (h : files.Perm files') :
    ofFiles files = ofFiles files' := by
  refine h.foldl_eq' ?_ _
  intro f _ g _ s
  simp only [absorb_eq_merge]
  rw [merge_assoc, merge_comm (ofFile f), ← merge_assoc]

/-- Totals that the totals of parts have been merged to, two at a time. -/
inductive MergedFrom : List (List FileReport) → RunSummary → Prop where
  | nothing : MergedFrom [] {}
  | part (files : List FileReport) : MergedFrom [files] (ofFiles files)
  | merge {parts others : List (List FileReport)} {s t : RunSummary} (hs : MergedFrom parts s)
      (ht : MergedFrom others t) : MergedFrom (parts ++ others) (s.merge t)

/-- However the totals of parts are merged, they come to the totals of all documents. -/
theorem MergedFrom.eq_ofFiles {parts : List (List FileReport)} {s : RunSummary}
    (h : MergedFrom parts s) : s = ofFiles parts.flatten := by
  induction h with
  | nothing => rfl
  | part files => rw [List.flatten_singleton]
  | merge _ _ ih ih' => rw [ih, ih', List.flatten_append, ofFiles_append]

/-- Every document is counted under one status. -/
theorem length_eq_statuses (files : List FileReport) :
    (ofFiles files).filesValid + (ofFiles files).filesRepaired +
        (ofFiles files).filesWouldRepair + (ofFiles files).filesUnresolved +
        (ofFiles files).filesRejected + (ofFiles files).filesRestored +
        (ofFiles files).filesFailed + (ofFiles files).filesSkipped = files.length := by
  have hone : ∀ f : FileReport, (ofFile f).filesValid + (ofFile f).filesRepaired +
      (ofFile f).filesWouldRepair + (ofFile f).filesUnresolved + (ofFile f).filesRejected +
      (ofFile f).filesRestored + (ofFile f).filesFailed + (ofFile f).filesSkipped = 1 := by
    intro f
    cases h : f.status <;> simp [ofFile, tally, FileStatus.isCommitted, h]
  have htotal := total_ofFiles (fun s => s.filesValid + s.filesRepaired + s.filesWouldRepair +
    s.filesUnresolved + s.filesRejected + s.filesRestored + s.filesFailed + s.filesSkipped) rfl
    (fun a b => by simp only [merge]; omega) files
  simpa only [hone, List.map_const', List.sum_replicate, smul_eq_mul, mul_one] using htotal

/-- A document is processed or skipped. -/
theorem length_eq_processed_add_skipped (files : List FileReport) :
    (ofFiles files).filesProcessed + (ofFiles files).filesSkipped = files.length := by
  have hone : ∀ f : FileReport, (ofFile f).filesProcessed + (ofFile f).filesSkipped = 1 := by
    intro f
    by_cases h : f.status = .skipped <;> simp [ofFile, tally, h]
  have htotal := total_ofFiles (fun s => s.filesProcessed + s.filesSkipped) rfl
    (fun a b => by simp only [merge]; omega) files
  simpa only [hone, List.map_const', List.sum_replicate, smul_eq_mul, mul_one] using htotal

/-- Every issue counts as an error or as a warning. -/
theorem errors_add_warnings (files : List FileReport) :
    (ofFiles files).errorsFound + (ofFiles files).warningsFound =
      (files.map fun f => f.issues.length).sum := by
  have hall : ∀ f : FileReport,
      (ofFile f).errorsFound + (ofFile f).warningsFound = f.issues.length := by
    intro f
    have hwarning : ∀ i ∈ f.issues, (i.severity == .warning) = true ↔
        decide (¬ i.severity.isError = true) = true := by
      intro i _
      cases i.severity <;> decide
    rw [List.length_eq_countP_add_countP (·.severity.isError), ← List.countP_congr hwarning]
    rfl
  have htotal := total_ofFiles (fun s => s.errorsFound + s.warningsFound) rfl
    (fun a b => by simp only [merge]; omega) files
  simpa only [hall] using htotal

end RunSummary

namespace RunReport

/-- Reports on different documents are sorted alike in whatever order they come. -/
theorem sortFiles_eq_of_perm {files files' : List FileReport} (hperm : files.Perm files')
    (hdistinct : (files'.map (·.path)).Nodup) : sortFiles files = sortFiles files' := by
  have hle : ∀ a b : FileReport, (!decide (b.path < a.path)) = true ↔ a.path ≤ b.path := by
    intro a b
    rw [Bool.not_eq_true', decide_eq_false_iff_not, String.not_lt]
  have hsorted : ∀ files : List FileReport,
      (sortFiles files).Pairwise fun a b => (!decide (b.path < a.path)) = true := by
    refine List.pairwise_mergeSort (fun a b c hab hbc => ?_) (fun a b => ?_)
    · rw [hle] at hab hbc ⊢
      exact String.le_trans hab hbc
    · rw [Bool.or_eq_true, hle, hle]
      exact String.le_total _ _
  have hperm' : (sortFiles files).Perm (sortFiles files') :=
    (List.mergeSort_perm files _).trans (hperm.trans (List.mergeSort_perm files' _).symm)
  refine List.Perm.eq_of_pairwise ?_ (hsorted files) (hsorted files') hperm'
  intro a b ha hb hab hba
  rw [hle] at hab hba
  have ha' : a ∈ files' := hperm.mem_iff.mp (List.mem_mergeSort.mp ha)
  exact List.inj_on_of_nodup_map hdistinct ha' (List.mem_mergeSort.mp hb)
    (String.le_antisymm hab hba)

end RunReport

/-- The report on a run does not depend on the order in which its documents were completed, as long
as they are different documents. Its totals are those that one gets by splitting the documents into
parts and merging the totals of the parts in any order. They count every document once by its
status and once as processed or skipped, and every issue once as an error or as a warning. -/
theorem RunReport.ofFiles_completed (tool : ToolInfo) (run : RunInfo) (files : List FileReport) :
    let totals := RunSummary.ofFiles files
    (∀ completed, completed.Perm files → (files.map (·.path)).Nodup →
        RunReport.ofFiles tool run completed = RunReport.ofFiles tool run files) ∧
      (∀ parts order s, parts.flatten = files → order.Perm parts →
        RunSummary.MergedFrom order s → s = totals) ∧
      (RunReport.ofFiles tool run files).summary = totals ∧
      totals.filesValid + totals.filesRepaired + totals.filesWouldRepair +
        totals.filesUnresolved + totals.filesRejected + totals.filesRestored +
        totals.filesFailed + totals.filesSkipped = files.length ∧
      totals.filesProcessed + totals.filesSkipped = files.length ∧
      totals.errorsFound + totals.warningsFound = (files.map fun f => f.issues.length).sum := by
  intro totals
  refine ⟨?_, ?_, ?_, RunSummary.length_eq_statuses files,
    RunSummary.length_eq_processed_add_skipped files, RunSummary.errors_add_warnings files⟩
  · intro completed hperm hdistinct
    rw [RunReport.ofFiles, RunReport.ofFiles, RunReport.sortFiles_eq_of_perm hperm hdistinct]
  · intro parts order s hparts horder hmerged
    rw [hmerged.eq_ofFiles, RunSummary.ofFiles_eq_of_perm horder.flatten, hparts]
  · exact RunSummary.ofFiles_eq_of_perm (List.mergeSort_perm files _)

/-- Reports on three documents, one that failed, one that was skipped and one that was repaired. -/
def mixedReports : List FileReport :=
  [.ofError "a.xhtml" "denied", .ofSkipped "b.xhtml",
    { path := "c.xhtml", status := .repaired, fixesApplied := 2 }]

/-- The three documents may be completed from the last to the first, and the first of them may be
merged after the others. -/
theorem RunReport.ofFiles_completed_mixedReports :
    mixedReports.reverse.Perm mixedReports ∧ (mixedReports.map (·.path)).Nodup ∧
      RunReport.ofFiles ⟨"xhtmlfix", none⟩ ⟨"", none, none, ".", false, true⟩
          mixedReports.reverse =
        RunReport.ofFiles ⟨"xhtmlfix", none⟩ ⟨"", none, none, ".", false, true⟩ mixedReports ∧
      ∃ s, RunSummary.MergedFrom [mixedReports.drop 1, mixedReports.take 1] s ∧
        s = RunSummary.ofFiles mixedReports := by
  have hperm := List.reverse_perm mixedReports
  have hdistinct : (mixedReports.map (·.path)).Nodup := by
    decide
  obtain ⟨hreport, htotals, -⟩ := RunReport.ofFiles_completed ⟨"xhtmlfix", none⟩
    ⟨"", none, none, ".", false, true⟩ mixedReports
  have hmerged := RunSummary.MergedFrom.merge (.part (mixedReports.drop 1))
    (.part (mixedReports.take 1))
  exact ⟨hperm, hdistinct, hreport _ hperm hdistinct, _, hmerged,
    htotals [mixedReports.take 1, mixedReports.drop 1] _ _ rfl (.swap _ _ _) hmerged⟩

end MarkupRepair
