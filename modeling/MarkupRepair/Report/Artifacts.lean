import MarkupRepair.Json.Pretty
import MarkupRepair.Report.Encoding
import MarkupRepair.Report.Render
import MarkupRepair.Storage.Script

/-!
# The files of a report

The report on a run is written to a directory of its own, as JSON and in Markdown. A run
without changes also leaves its patch there.
-/

namespace MarkupRepair

/-- Write files one after another, up to the first that cannot be written. -/
def publishAll : List (Path × ByteArray) → Script (Except Failure Unit)
  | [] => return .ok ()
  | (path, bytes) :: rest => do
      match ← Script.request (.publish path bytes) with
      | .ok () => publishAll rest
      | .error why => return .error why

namespace RunReport

/-- The files of a report with their bytes. -/
def artifacts (r : RunReport) (patch : String) (outDir : Path) (maxIssues : Nat) :
    List (Path × ByteArray) :=
  [(Path.join outDir "report.json", r.toJson.pretty.toUTF8),
    (Path.join outDir "report.md", (r.markdown maxIssues).toUTF8)] ++
  if r.run.dryRun then [(Path.join outDir "patch.diff", patch.toUTF8)] else []

/-- Write the files of a report. -/
def writeArtifacts (r : RunReport) (patch : String) (outDir : Path) (maxIssues : Nat) :
    Script (Except Failure Unit) := do
  match ← Script.request (.makeDirectory outDir) with
  | .error why => return .error why
  | .ok () => publishAll (r.artifacts patch outDir maxIssues)

end RunReport

end MarkupRepair
