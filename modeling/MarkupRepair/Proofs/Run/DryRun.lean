import MarkupRepair.Proofs.Repair.Passes
import MarkupRepair.Proofs.Run.Faultless
import MarkupRepair.Proofs.Run.OneFailure

/-!
# Trying a repair out

A run that only tries repairs out takes another way through a document than a run that stores
them: its remaining issues come from the repair itself and not from reading back what was
stored. On a store that never fails the two agree on every document that has no old backup.
-/

namespace MarkupRepair

section Settings

variable {settings : RunSettings} {path : Path} {t : Text}

/-- Whether repairs are only tried out matters when there is a repair without fatal issues, and
only then. -/
private theorem settled?_withDryRun (settings : RunSettings) (path : Path) (t : Text)
    (dryRun : Bool) : settled? { settings with dryRun } path t =
      let report := FileReport.ofAnalysis path t (analyze t)
      let result := repair settings.repairOptions t
      if report.issues.isEmpty || !settings.repair then some report
      else if !result.changed then some report
      else
        match verify result.content with
        | .error why => some { report with status := .rejected, note := some why.message }
        | .ok _ => if dryRun then some (report.withPatch t result) else none := rfl

/-- What a run settles that stores repairs, a run settles alike that only tries them out. -/
theorem settled?_dryRun_of_eq_some {report : FileReport}
    (h : settled? { settings with dryRun := false } path t = some report) :
    report.status ≠ .wouldRepair ∧
      settled? { settings with dryRun := true } path t = some report := by
  have hanalysed : (FileReport.ofAnalysis path t (analyze t)).status ≠ .wouldRepair := by
    unfold FileReport.ofAnalysis
    dsimp only
    split <;> exact FileStatus.noConfusion
  rw [settled?_withDryRun] at h ⊢
  dsimp only at h ⊢
  split at h
  next hrepairs =>
    obtain rfl := Option.some.inj h
    exact ⟨hanalysed, if_pos hrepairs⟩
  next hrepairs =>
    rw [if_neg hrepairs]
    split at h
    next hchanged =>
      obtain rfl := Option.some.inj h
      exact ⟨hanalysed, if_pos hchanged⟩
    next hchanged =>
      rw [if_neg hchanged]
      cases hverify : verify (repair settings.repairOptions t).content with
      | error why =>
          rw [hverify] at h
          obtain rfl := Option.some.inj h
          exact ⟨FileStatus.noConfusion, rfl⟩
      | ok issues =>
          rw [hverify] at h
          cases h

/-- A repair that is to be stored is turned into a patch when it is only tried out. -/
theorem settled?_dryRun_of_eq_none
    (h : settled? { settings with dryRun := false } path t = none) :
    settled? { settings with dryRun := true } path t =
      some ((FileReport.ofAnalysis path t (analyze t)).withPatch t
        (repair settings.repairOptions t)) := by
  rw [settled?_withDryRun] at h ⊢
  dsimp only at h ⊢
  split at h
  next => cases h
  next hrepairs =>
    rw [if_neg hrepairs]
    split at h
    next => cases h
    next hchanged =>
      rw [if_neg hchanged]
      cases hverify : verify (repair settings.repairOptions t).content with
      | error why =>
          rw [hverify] at h
          cases h
      | ok issues => rfl

end Settings

/-- Whether the report on a repair that is only tried out tells what the report on the stored
repair tells, and what the store then holds. -/
structure FileReport.Predicts (dry real : FileReport) (target : Path) (after : Memory) : Prop where
  /-- The number of fixes. -/
  fixesApplied : dry.fixesApplied = real.fixesApplied
  /-- The fixes. -/
  applied : dry.applied = real.applied
  /-- The issues that remain. -/
  remaining : dry.issuesRemaining = real.issuesRemaining
  /-- The digest of the repaired document. -/
  digest : dry.sha256After = real.sha256After
  /-- The store holds a document with that digest. -/
  holds : ∃ bytes, after.get? target = some bytes ∧ dry.sha256After = some (sha256Hex bytes)

/-- On a store that never fails, trying a repair out changes nothing and tells what storing it
will do, provided that there is no old backup: the document would be repaired exactly when it
is, with the same fixes, digest and remaining issues. In every other case the two runs report
the same. -/
theorem processDocument_dryRun (settings : RunSettings) (path : Path) (m : Memory)
    (fresh : m.get? (settings.backups.pathFor settings.root path) = none) :
    let dry := Memory.host.run (processDocument { settings with dryRun := true } path) m
    let real := Memory.host.run (processDocument { settings with dryRun := false } path) m
    dry.2 = m ∧ (dry.1.status = .wouldRepair ↔ real.1.status.isCommitted = true) ∧
      (dry.1.status = .wouldRepair →
        dry.1.Predicts real.1 (Path.join settings.root path) real.2) ∧
      (dry.1.status ≠ .wouldRepair → dry.1 = real.1) := by
  intro dry real
  have hdry : dry = _ := run_processDocument _ path m
  have hreal : real = _ := run_processDocument _ path m
  dsimp only at hdry hreal
  cases hread : (Memory.host.run (readDocument (Path.join settings.root path)) m).1 with
  | error why =>
      simp only [hread] at hdry hreal
      rw [hdry, hreal]
      exact ⟨rfl, by simp [FileReport.ofError, FileStatus.isCommitted],
        fun h => FileStatus.noConfusion h, fun _ => rfl⟩
  | ok t =>
      simp only [hread] at hdry hreal
      cases hsettled : settled? { settings with dryRun := false } path t with
      | some report =>
          obtain ⟨hstatus, hsame⟩ := settled?_dryRun_of_eq_some hsettled
          simp only [hsame] at hdry
          simp only [hsettled] at hreal
          rw [hdry, hreal]
          have hcommitted := (of_settled?_eq_some hsettled).1
          exact ⟨rfl, by simp [hstatus, hcommitted], fun h => absurd h hstatus, fun _ => rfl⟩
      | none =>
          obtain ⟨-, -, -, -, hfree⟩ := settled?_eq_none_iff.mp hsettled
          have held := ((run_readDocument _ m).2 t).mp hread
          have hstored := run_commitRepair held fresh hfree
          simp only [settled?_dryRun_of_eq_none hsettled] at hdry
          simp only [hsettled, hstored] at hreal
          have hholds := FileReport.repairStored_of_fresh hsettled held fresh
          rw [hdry, hreal]
          refine ⟨rfl, ⟨fun _ => hholds.committed, fun _ => rfl⟩, fun _ => ?_,
            fun h => absurd rfl h⟩
          exact ⟨rfl, rfl, issuesRemaining_repair _ t, rfl, _, hholds.holds, rfl⟩

/-- Trying out the repair of the ampersand tells that it would be repaired, and how. -/
theorem processDocument_dryRun_ampersand :
    ampersandStore.get? (BackupOptions.pathFor {} "." "a.xhtml") = none ∧
      (Memory.host.run (processDocument { repair := true, dryRun := true } "a.xhtml")
        ampersandStore).1.status = .wouldRepair ∧
      (Memory.host.run (processDocument { repair := true, dryRun := true } "a.xhtml")
        ampersandStore).1.Predicts
        (Memory.host.run (processDocument { repair := true } "a.xhtml") ampersandStore).1
        (Path.join "." "a.xhtml")
        (Memory.host.run (processDocument { repair := true } "a.xhtml") ampersandStore).2 := by
  obtain ⟨-, hiff, hpredicts, -⟩ := processDocument_dryRun { repair := true } "a.xhtml"
    ampersandStore get?_ampersandStore_backup
  have hstored := (run_processDocument_of_fresh get?_ampersandStore get?_ampersandStore_backup
    settled?_ampersandDocument).1
  have hstatus := hiff.mpr hstored.committed
  exact ⟨get?_ampersandStore_backup, hstatus, hpredicts hstatus⟩

end MarkupRepair
