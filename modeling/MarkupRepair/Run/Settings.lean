import MarkupRepair.Repair.Passes
import MarkupRepair.Report.Render
import MarkupRepair.Storage.Backup

/-!
# Settings of a run

Which documents a run is about, whether and how it repairs them, and where its report goes.
-/

namespace MarkupRepair

/-- The patterns of documents when none are given. -/
def defaultInclude : List String := ["**/*.xhtml"]

/-- The directory of the report when none is given. -/
def defaultOutDir : Path := "artifacts/xhtmlfix"

/-- The settings of a run. -/
structure RunSettings where
  /-- The root of the documents. -/
  root : Path := "."
  /-- The directory of the report; it lies in the root unless it is absolute. -/
  outDir : Path := defaultOutDir
  /-- Patterns of the documents, relative to the root. -/
  includes : List String := defaultInclude
  /-- Patterns of documents to leave out, relative to the root. -/
  excludes : List String := []
  /-- Whether documents are repaired. -/
  repair : Bool := false
  /-- Whether repairs are only tried out. -/
  dryRun : Bool := false
  /-- Which issues may be repaired. -/
  policy : RepairPolicy := {}
  /-- Upper bound on the passes over one document. -/
  maxPasses : Nat := defaultMaxPasses
  /-- Where backups go. -/
  backups : BackupOptions := {}
  /-- How many documents may be worked on at once; zero leaves it to the machine. -/
  jobs : Nat := 1
  /-- Whether the run stops at the first document that goes wrong. -/
  failFast : Bool := false
  /-- Upper bound on the issues listed for one document. -/
  maxIssuesPerFile : Nat := defaultMaxIssues
  deriving DecidableEq, Repr

namespace RunSettings

/-- How documents are repaired. -/
def repairOptions (s : RunSettings) : RepairOptions := ⟨s.policy, s.maxPasses⟩

/-- The directory of the report. -/
def resolvedOutDir (s : RunSettings) : Path := Path.join s.root s.outDir

/-- Whether documents may be written. -/
def writesDocuments (s : RunSettings) : Bool := s.repair && !s.dryRun

end RunSettings

end MarkupRepair
