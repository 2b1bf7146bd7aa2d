import MarkupRepair.Diff.Patch
import MarkupRepair.Run.Settings
import MarkupRepair.Storage.Commit

/-!
# One document of a run

A document is read and analysed. When the run repairs, the repaired text is verified in memory
and then either stored or, in a dry run, turned into a patch.
-/

namespace MarkupRepair

/-- The text of a document, or why there is none. -/
def readDocument (path : Path) : Script (Except String Text) := do
  match ← Script.request (.read path) with
  | .error why => return .error why.full
  | .ok bytes =>
      match Text.decode? bytes with
      | some t => return .ok t
      | none =>
          let reason := ((Utf8Fault.find? bytes).map (·.message)).getD ""
          return .error s!"{path} is not valid UTF-8: {reason}"

namespace FileReport

/-- The report on a document that has been analysed and left as it is. -/
def ofAnalysis (path : Path) (t : Text) (issues : List Issue) : FileReport :=
  { path
    status := if issues.isEmpty then .valid else .unresolved
    issues
    issuesRemaining := issues
    sha256Before := some (sha256Hex t.encode) }

/-- The report with what a repair did, given the issues that it leaves. -/
def withRepair (f : FileReport) (status : FileStatus) (result : RepairResult)
    (sha256After : String) (issuesRemaining : List Issue) : FileReport :=
  { f with
    status
    fixesApplied := result.fixesApplied
    applied := result.applied
    issuesRemaining
    sha256After := some sha256After }

/-- The report on a repair that is only tried out. -/
def withPatch (f : FileReport) (former : Text) (result : RepairResult) : FileReport :=
  { f.withRepair .wouldRepair result (sha256Hex result.content.encode) result.issuesRemaining with
    patch := some (Diff.renderPatch f.path former result.content) }

/-- The report after storing a repair. -/
def withOutcome (f : FileReport) (result : RepairResult) :
    Except EditError CommitOutcome → FileReport
  | .ok (.committed digest issues) =>
      let status :=
        if issues.any (·.severity.isError) then FileStatus.partiallyRepaired else .repaired
      f.withRepair status result digest issues
  | .ok (.restored reason) =>
      { f with status := .restored, note := some s!"original restored: {reason}" }
  | .error why => { f with status := .processingError, error := some why.message }

end FileReport

/-- Repair a document that has been analysed. -/
def repairDocument (settings : RunSettings) (path : Path) (t : Text) (report : FileReport) :
    Script FileReport := do
  let result := repair settings.repairOptions t
  if !result.changed then return report
  else
    match verify result.content with
    | .error why => return { report with status := .rejected, note := some why.message }
    | .ok _ =>
        if settings.dryRun then return report.withPatch t result
        else
          let target := Path.join settings.root path
          let backup := settings.backups.pathFor settings.root path
          let outcome ← (commitRepair target backup t result.content).run
          return report.withOutcome result outcome

/-- Process a document, given relative to the root. -/
def processDocument (settings : RunSettings) (path : Path) : Script FileReport := do
  match ← readDocument (Path.join settings.root path) with
  | .error why => return .ofError path why
  | .ok t =>
      let report := FileReport.ofAnalysis path t (analyze t)
      if report.issues.isEmpty || !settings.repair then return report
      else repairDocument settings path t report

end MarkupRepair
