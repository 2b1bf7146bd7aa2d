import MarkupRepair.Issue.Encoding
import MarkupRepair.Report.Run

/-!
# Reports as JSON

Reports are written with their fields in a fixed order; absent parts and empty lists of fixes
and reasons are left out. Reading ignores unknown fields, takes the defaults for what may be
left out, and also accepts a record as the list of its values.
-/

namespace MarkupRepair

namespace AppliedFix

/-- The names of the fields. -/
def fieldNames : List String := ["code", "description", "line"]

/-- A fix as JSON. -/
def toJson (f : AppliedFix) : Json :=
  .obj ([("code", .str f.code), ("description", .str f.description)] ++
    Json.optionalField "line" .nat f.line)

/-- The fix that a JSON value gives. -/
def ofJson? (value : Json) : Option AppliedFix := do
  let fields ← value.record? fieldNames
  return {
    code := ← Json.required? Json.str? fields "code"
    description := ← Json.required? Json.str? fields "description"
    line := ← Json.optional? Json.nat? fields "line" }

end AppliedFix

namespace FileStatus

/-- A status as JSON. -/
def toJson (s : FileStatus) : Json := .str s.name

/-- The status that a JSON value names. -/
def ofJson? (value : Json) : Option FileStatus := (value.caseName?).bind ofName?

end FileStatus

namespace FileReport

/-- The names of the fields. -/
def fieldNames : List String :=
  ["path", "status", "issues", "fixes_applied", "issues_remaining", "applied", "sha256_before",
    "sha256_after", "error", "note", "patch"]

/-- A report on a document as JSON. -/
def toJson (f : FileReport) : Json :=
  .obj ([("path", .str f.path), ("status", f.status.toJson),
      ("issues", .arr (f.issues.map Issue.toJson)), ("fixes_applied", .nat f.fixesApplied),
      ("issues_remaining", .arr (f.issuesRemaining.map Issue.toJson))] ++
    Json.nonemptyField "applied" AppliedFix.toJson f.applied ++
    Json.optionalField "sha256_before" .str f.sha256Before ++
    Json.optionalField "sha256_after" .str f.sha256After ++
    Json.optionalField "error" .str f.error ++
    Json.optionalField "note" .str f.note ++
    Json.optionalField "patch" .str f.patch)

/-- The report on a document that a JSON value gives. -/
def ofJson? (value : Json) : Option FileReport := do
  let fields ← value.record? fieldNames
  return {
    path := ← Json.required? Json.str? fields "path"
    status := ← Json.required? FileStatus.ofJson? fields "status"
    issues := ← Json.withDefault? (Json.list? Issue.ofJson?) fields "issues" []
    fixesApplied := ← Json.required? Json.nat? fields "fixes_applied"
    issuesRemaining := ← Json.withDefault? (Json.list? Issue.ofJson?) fields "issues_remaining" []
    applied := ← Json.withDefault? (Json.list? AppliedFix.ofJson?) fields "applied" []
    sha256Before := ← Json.optional? Json.str? fields "sha256_before"
    sha256After := ← Json.optional? Json.str? fields "sha256_after"
    error := ← Json.optional? Json.str? fields "error"
    note := ← Json.optional? Json.str? fields "note"
    patch := ← Json.optional? Json.str? fields "patch" }

end FileReport

namespace RunSummary

/-- The names of the fields. -/
def fieldNames : List String :=
  ["files_processed", "errors_found", "warnings_found", "fixes_applied", "files_valid",
    "files_repaired", "files_would_repair", "files_unresolved", "files_rejected",
    "files_restored", "files_failed", "files_skipped"]

/-- Totals as JSON. -/
def toJson (s : RunSummary) : Json :=
  .obj [("files_processed", .nat s.filesProcessed), ("errors_found", .nat s.errorsFound),
    ("warnings_found", .nat s.warningsFound), ("fixes_applied", .nat s.fixesApplied),
    ("files_valid", .nat s.filesValid), ("files_repaired", .nat s.filesRepaired),
    ("files_would_repair", .nat s.filesWouldRepair),
    ("files_unresolved", .nat s.filesUnresolved), ("files_rejected", .nat s.filesRejected),
    ("files_restored", .nat s.filesRestored), ("files_failed", .nat s.filesFailed),
    ("files_skipped", .nat s.filesSkipped)]

/-- The totals that a JSON value gives. -/
def ofJson? (value : Json) : Option RunSummary := do
  let fields ← value.record? fieldNames
  return {
    filesProcessed := ← Json.required? Json.nat? fields "files_processed"
    errorsFound := ← Json.required? Json.nat? fields "errors_found"
    warningsFound := ← Json.required? Json.nat? fields "warnings_found"
    fixesApplied := ← Json.required? Json.nat? fields "fixes_applied"
    filesValid := ← Json.withDefault? Json.nat? fields "files_valid" 0
    filesRepaired := ← Json.withDefault? Json.nat? fields "files_repaired" 0
    filesWouldRepair := ← Json.withDefault? Json.nat? fields "files_would_repair" 0
    filesUnresolved := ← Json.withDefault? Json.nat? fields "files_unresolved" 0
    filesRejected := ← Json.withDefault? Json.nat? fields "files_rejected" 0
    filesRestored := ← Json.withDefault? Json.nat? fields "files_restored" 0
    filesFailed := ← Json.withDefault? Json.nat? fields "files_failed" 0
    filesSkipped := ← Json.withDefault? Json.nat? fields "files_skipped" 0 }

end RunSummary

namespace ToolInfo

/-- The names of the fields. -/
def fieldNames : List String := ["name", "version"]

/-- A program as JSON. -/
def toJson (t : ToolInfo) : Json :=
  .obj ([("name", .str t.name)] ++ Json.optionalField "version" .str t.version)

/-- The program that a JSON value gives. -/
def ofJson? (value : Json) : Option ToolInfo := do
  let fields ← value.record? fieldNames
  return {
    name := ← Json.required? Json.str? fields "name"
    version := ← Json.optional? Json.str? fields "version" }

end ToolInfo

namespace RunInfo

/-- The names of the fields. -/
def fieldNames : List String :=
  ["started_at", "ended_at", "duration_ms", "root", "dry_run", "repair"]

/-- A run as JSON. -/
def toJson (r : RunInfo) : Json :=
  .obj ([("started_at", .str r.startedAt)] ++ Json.optionalField "ended_at" .str r.endedAt ++
    Json.optionalField "duration_ms" .nat r.durationMs ++
    [("root", .str r.root), ("dry_run", .bool r.dryRun), ("repair", .bool r.repair)])

/-- The run that a JSON value gives. -/
def ofJson? (value : Json) : Option RunInfo := do
  let fields ← value.record? fieldNames
  return {
    startedAt := ← Json.required? Json.str? fields "started_at"
    endedAt := ← Json.optional? Json.str? fields "ended_at"
    durationMs := ← Json.optional? Json.nat? fields "duration_ms"
    root := ← Json.required? Json.str? fields "root"
    dryRun := ← Json.required? Json.bool? fields "dry_run"
    repair := ← Json.required? Json.bool? fields "repair" }

end RunInfo

namespace Verdict

/-- The names of the fields. -/
def fieldNames : List String := ["status", "reasons"]

/-- The outcome that a JSON value names. -/
def statusOfJson? (value : Json) : Option VerdictStatus :=
  (value.caseName?).bind VerdictStatus.ofName?

/-- A verdict as JSON. -/
def toJson (v : Verdict) : Json :=
  .obj ([("status", .str v.status.name)] ++ Json.nonemptyField "reasons" .str v.reasons)

/-- The verdict that a JSON value gives. -/
def ofJson? (value : Json) : Option Verdict := do
  let fields ← value.record? fieldNames
  return {
    status := ← Json.required? statusOfJson? fields "status"
    reasons := ← Json.withDefault? (Json.list? Json.str?) fields "reasons" [] }

end Verdict

namespace RunReport

/-- The names of the fields. -/
def fieldNames : List String := ["schema", "tool", "run", "summary", "verdict", "files"]

/-- A report as JSON. -/
def toJson (r : RunReport) : Json :=
  .obj [("schema", .str r.schema), ("tool", r.tool.toJson), ("run", r.run.toJson),
    ("summary", r.summary.toJson), ("verdict", r.verdict.toJson),
    ("files", .arr (r.files.map FileReport.toJson))]

/-- The report that a JSON value gives. -/
def ofJson? (value : Json) : Option RunReport := do
  let fields ← value.record? fieldNames
  return {
    schema := ← Json.required? Json.str? fields "schema"
    tool := ← Json.required? ToolInfo.ofJson? fields "tool"
    run := ← Json.required? RunInfo.ofJson? fields "run"
    summary := ← Json.required? RunSummary.ofJson? fields "summary"
    verdict := ← Json.required? Verdict.ofJson? fields "verdict"
    files := ← Json.withDefault? (Json.list? FileReport.ofJson?) fields "files" [] }

end RunReport

end MarkupRepair
