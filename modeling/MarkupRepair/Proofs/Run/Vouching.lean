import MarkupRepair.Proofs.Run.DryRun

/-!
# What a report vouches for

Other checkers rely on the structure of a document when its report says that they may. The
report looks only at its status and at the issues that it lists as remaining, so each status has
to be held against what the store then has. It speaks of the document on the store, with one
exception: when a repair is only tried out, it speaks of the repair, which the store does not
have.
-/

namespace MarkupRepair

/-- A report vouches for a document that was processed and has no fatal issue left. -/
theorem FileReport.structurallyValid_iff {f : FileReport} : f.structurallyValid = true ↔
    (f.status ≠ .processingError ∧ f.status ≠ .skipped) ∧
      ∀ i ∈ f.issuesRemaining, i.isFatal = false := by
  unfold structurallyValid
  rw [Bool.and_eq_true, Bool.not_eq_true', Bool.not_eq_true', Bool.or_eq_false_iff,
    beq_eq_false_iff_ne, beq_eq_false_iff_ne, List.any_eq_false]
  simp only [Bool.not_eq_true]

/-- The text that a report on a document speaks of: the document, or its repair when that is only
tried out. -/
def FileReport.subject (f : FileReport) (settings : RunSettings) (t : Text) : Text :=
  if f.status = .wouldRepair then (repair settings.repairOptions t).content else t

/-- A report on a document that was processed, with the issues of the text that it speaks of,
vouches exactly for a text without fatal issues. -/
theorem FileReport.structurallyValid_iff_of_remaining {f : FileReport} {settings : RunSettings}
    {target : Path} {t : Text} {after : Memory} (held : after.get? target = some t.encode)
    (hstatus : f.status ≠ .processingError ∧ f.status ≠ .skipped)
    (hremaining : f.issuesRemaining = analyze (f.subject settings t)) :
    f.structurallyValid = true ↔ f.status ≠ .processingError ∧
      ∃ t, after.get? target = some t.encode ∧ FreeOfFatal (f.subject settings t) := by
  rw [structurallyValid_iff, hremaining, and_iff_right hstatus, and_iff_right hstatus.1]
  constructor
  · exact fun hfree => ⟨t, held, hfree⟩
  · rintro ⟨t', held', hfree⟩
    obtain rfl := Text.encode_injective (Option.some.inj (held'.symm.trans held))
    exact hfree

section Statuses

variable {settings : RunSettings} {path : Path} {t : Text}

/-- A document that nothing is stored for counts as processed, and the issues that remain are
those of the text that its report speaks of. -/
theorem remaining_of_settled?_eq_some {report : FileReport}
    (h : settled? settings path t = some report) :
    (report.status ≠ .processingError ∧ report.status ≠ .skipped) ∧
      report.issuesRemaining = analyze (report.subject settings t) := by
  obtain rfl | ⟨why, rfl⟩ | rfl := settled?_cases h
  · obtain hstatus | hstatus := FileReport.status_ofAnalysis path t (analyze t) <;>
      rw [FileReport.subject, hstatus] <;>
      exact ⟨⟨FileStatus.noConfusion, FileStatus.noConfusion⟩, rfl⟩
  · exact ⟨⟨FileStatus.noConfusion, FileStatus.noConfusion⟩, rfl⟩
  · exact ⟨⟨FileStatus.noConfusion, FileStatus.noConfusion⟩, issuesRemaining_repair _ t⟩

/-- On a store that never fails, a document whose repair is to be stored is reported as an error
when there is an old backup. -/
theorem status_processDocument_of_stale {m : Memory}
    (held : m.get? (Path.join settings.root path) = some t.encode)
    (busy : m.get? (settings.backups.pathFor settings.root path) ≠ none)
    (unsettled : settled? settings path t = none) :
    (Memory.host.run (processDocument settings path) m).1.status = .processingError := by
  have hensures : (processDocument settings path).Ensures (Memory.mayFailWithin fun _ => False)
      (fun _ => True) (ProcessingEnd _ settings path m 0) (m, 0) :=
    ensures_processDocument_within (Nat.zero_le 1)
  have hend := Memory.ensures_within_zero_iff.mp hensures
  generalize Memory.host.run (processDocument settings path) m = run at hend ⊢
  obtain ⟨report, after⟩ := run
  cases hend with
  | noText why none => rfl
  | settled held' settled =>
      obtain rfl := Text.encode_injective (Option.some.inj (held'.symm.trans held))
      rw [unsettled] at settled
      cases settled
  | ended held' unsettled' ending =>
      cases ending with
      | stale _ => rfl
      | stored fresh => exact absurd fresh busy

/-- A report that says that a repair is stored speaks of what the store holds. -/
theorem FileReport.RepairStored.of_status {report : FileReport} {target : Path} {after : Memory}
    (h : report.RepairStored settings target t after) :
    (report.status ≠ .processingError ∧ report.status ≠ .skipped) ∧
      report.subject settings (repair settings.repairOptions t).content =
        (repair settings.repairOptions t).content := by
  have hne : ∀ status : FileStatus, status.isCommitted = false → report.status ≠ status := by
    rintro _ hstatus rfl
    exact absurd (h.committed.symm.trans hstatus) (by decide)
  exact ⟨⟨hne _ rfl, hne _ rfl⟩, if_neg (hne _ rfl)⟩

end Statuses

/-- On a store that never fails, a report vouches for a document exactly when the document was
processed and is a text, and the text that the report speaks of has no fatal issue. That text is
the document on the store, unless its repair is only tried out. -/
theorem structurallyValid_processDocument_iff (settings : RunSettings) (path : Path) (m : Memory) :
    let run := Memory.host.run (processDocument settings path) m
    run.1.structurallyValid = true ↔ run.1.status ≠ .processingError ∧
      ∃ t, run.2.get? (Path.join settings.root path) = some t.encode ∧
        FreeOfFatal (run.1.subject settings t) := by
  intro run
  have herror : run.1.status = .processingError → (run.1.structurallyValid = true ↔
      run.1.status ≠ .processingError ∧
        ∃ t, run.2.get? (Path.join settings.root path) = some t.encode ∧
          FreeOfFatal (run.1.subject settings t)) := by
    intro hstatus
    simp [FileReport.structurallyValid_iff, hstatus]
  have hrun : run = _ := run_processDocument settings path m
  cases hread : (Memory.host.run (readDocument (Path.join settings.root path)) m).1 with
  | error why =>
      simp only [hread] at hrun
      exact herror (by rw [hrun]; rfl)
  | ok t =>
      have held := ((run_readDocument _ m).2 t).mp hread
      simp only [hread] at hrun
      cases hsettled : settled? settings path t with
      | some report =>
          simp only [hsettled] at hrun
          obtain ⟨hstatus, hremaining⟩ := remaining_of_settled?_eq_some hsettled
          rw [hrun]
          exact FileReport.structurallyValid_iff_of_remaining held hstatus hremaining
      | none =>
          by_cases fresh : m.get? (settings.backups.pathFor settings.root path) = none
          · have hstored := (run_processDocument_of_fresh held fresh hsettled).1
            obtain ⟨hstatus, hsubject⟩ := hstored.of_status
            refine FileReport.structurallyValid_iff_of_remaining hstored.holds hstatus ?_
            rw [hsubject]
            exact hstored.remaining
          · exact herror (status_processDocument_of_stale held fresh hsettled)

set_option maxRecDepth 10000 in
/-- The ampersand on its own is a fatal issue. -/
theorem not_freeOfFatal_ampersandDocument : ¬ FreeOfFatal ampersandDocument := by
  unfold FreeOfFatal
  decide +kernel

/-- A report may vouch for a document that has a fatal issue: the ampersand, when its repair is
only tried out. -/
theorem structurallyValid_dryRun_ampersand :
    let run := Memory.host.run (processDocument { repair := true, dryRun := true } "a.xhtml")
      ampersandStore
    run.1.structurallyValid = true ∧
      ∃ t, run.2.get? (Path.join "." "a.xhtml") = some (Text.encode t) ∧ ¬ FreeOfFatal t := by
  intro run
  have hread := ((run_readDocument _ ampersandStore).2 _).mpr get?_ampersandStore
  have hstored : settled? { ({ repair := true } : RunSettings) with dryRun := false } "a.xhtml"
      ampersandDocument = none := settled?_ampersandDocument
  have hsettled := settled?_dryRun_of_eq_none hstored
  have hrun : run = _ :=
    run_processDocument { repair := true, dryRun := true } "a.xhtml" ampersandStore
  simp only [hread, hsettled] at hrun
  obtain ⟨-, -, -, -, hfree⟩ := settled?_eq_none_iff.mp settled?_ampersandDocument
  rw [hrun]
  refine ⟨FileReport.structurallyValid_iff.mpr ⟨⟨FileStatus.noConfusion,
    FileStatus.noConfusion⟩, ?_⟩, _, get?_ampersandStore, not_freeOfFatal_ampersandDocument⟩
  intro i hi
  refine hfree i ?_
  rw [← issuesRemaining_repair]
  exact hi

end MarkupRepair
