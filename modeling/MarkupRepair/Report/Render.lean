import MarkupRepair.Text.Basic
import MarkupRepair.Report.Run

/-!
# Reports for readers

A report in Markdown, with a block for every document, and a plain summary of a few lines.
-/

namespace MarkupRepair

/-- Issues listed for a document when no other number is given. -/
def defaultMaxIssues : Nat := 10

/-- The first twelve bytes of a digest. -/
def shortDigest (digest : String) : String :=
  let t := digest.toList
  if Text.isBoundary 12 t then String.ofList (Text.takeBytes 12 t) else digest

namespace Issue

/-- The place of an issue, a hyphen when it has none. -/
def location (i : Issue) : String :=
  match i.line, i.column with
  | some line, some column => s!"{line}:{column}"
  | some line, none => toString line
  | none, _ => "-"

/-- An issue as an item of a list. -/
def markdownItem (i : Issue) : String :=
  let manual := if i.fixable then "" else " (manual)"
  s!"- `{i.severity.name}` `{i.code}` at {i.location}: {i.message}{manual}\n"

end Issue

namespace FileReport

/-- The block of a document, which is the `index`th, with at most `maxIssues` issues. -/
def markdownBlock (index maxIssues : Nat) (f : FileReport) : String :=
  let line := fun (holds : Bool) (text : String) => if holds then text else ""
  let fixes := if f.status = .wouldRepair then "Fixes available" else "Fixes applied"
  let digests := match f.sha256Before, f.sha256After with
    | some before, some after => s!"- sha256: {shortDigest before} → {shortDigest after}\n"
    | _, _ => ""
  let note := match f.note with
    | some note => s!"- Note: {note}\n"
    | none => ""
  let error := match f.error with
    | some error => s!"- Error: {error}\n"
    | none => ""
  let remaining :=
    if f.issuesRemaining.isEmpty then ""
    else
      let listed := String.join ((f.issuesRemaining.take maxIssues).map Issue.markdownItem)
      let more := f.issuesRemaining.length - maxIssues
      "\n**Remaining issues**\n\n" ++ listed ++ line (0 < more) s!"- … and {more} more\n"
  s!"### {index}. {f.path}\n\n- Status: `{f.status.name}`\n" ++
    line (!f.issues.isEmpty) s!"- Issues found: {f.issues.length}\n" ++
    line (0 < f.fixesApplied) s!"- {fixes}: {f.fixesApplied}\n" ++
    digests ++ note ++ error ++ remaining ++ "\n"

/-- The line of a document in the summary; a valid document has none. -/
def consoleLine (f : FileReport) : String :=
  if f.status = .valid then ""
  else
    let detail := match f.error.or f.note with
      | some detail => s!" ({detail})"
      | none => ""
    let name := f.status.name
    String.ofList (List.replicate (16 - name.length) ' ') ++ s!"{name}  {f.path}{detail}\n"

end FileReport

namespace RunReport

/-- The report in Markdown, with at most `maxIssues` issues for each document. -/
def markdown (maxIssues : Nat) (r : RunReport) : String :=
  let s := r.summary
  let listed := ", ".intercalate r.verdict.reasons
  let reasons := if r.verdict.reasons.isEmpty then "" else s!"- Reasons: {listed}\n"
  let mode :=
    if r.run.repair then if r.run.dryRun then "fix (dry run)" else "fix" else "check"
  let blocks :=
    if r.files.isEmpty then "_No documents matched._\n"
    else String.join (r.files.mapIdx fun i f => f.markdownBlock (i + 1) maxIssues)
  s!"# xhtmlfix report\n\n- Verdict: `{r.verdict.status.name}`\n" ++ reasons ++
    s!"- Root: `{r.run.root}`\n- Mode: {mode}\n" ++
    s!"- Files processed: {s.filesProcessed}\n- Errors found: {s.errorsFound}\n" ++
    s!"- Warnings found: {s.warningsFound}\n- Fixes applied: {s.fixesApplied}\n\n" ++
    "| valid | repaired | would repair | unresolved | rejected | restored | failed | skipped |\n" ++
    "|---|---|---|---|---|---|---|---|\n" ++
    s!"| {s.filesValid} | {s.filesRepaired} | {s.filesWouldRepair} | {s.filesUnresolved} | " ++
    s!"{s.filesRejected} | {s.filesRestored} | {s.filesFailed} | {s.filesSkipped} |\n\n" ++
    "## Files\n\n" ++ blocks

/-- The summary for a terminal. -/
def console (r : RunReport) : String :=
  let s := r.summary
  String.join (r.files.map FileReport.consoleLine) ++
    s!"xhtmlfix: {s.filesProcessed} file(s), {s.errorsFound} error(s), " ++
    s!"{s.warningsFound} warning(s), {s.fixesApplied} fix(es) applied; " ++
    s!"verdict {r.verdict.status.name}\n"

end RunReport

end MarkupRepair
