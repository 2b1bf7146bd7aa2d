import MarkupRepair.Proofs.Issue.Encoding
import MarkupRepair.Report.Encoding

/-!
# Reports are read back from their JSON

Every record of a report writes its fields in one order, under names that it uses once, and leaves
out what is absent or empty. Reading looks every field up by its name and takes what is left out
for absent or empty. So a report is read back as it was, with all its issues, in whatever order the
fields of objects come.
-/

namespace MarkupRepair

open Json

namespace AppliedFix

theorem names_toJson_sublist (f : AppliedFix) : f.toJson.names.Sublist fieldNames := by
  simp only [toJson, names, List.map_append]
  exact (List.Sublist.refl ["code", "description"]).append (map_fst_optionalField_sublist _ _ _)

/-- A fix is read back from its JSON. -/
theorem reads_toJson (f : AppliedFix) : Reads ofJson? f.toJson f := by
  intro value halike
  obtain ⟨fields, rfl, hsame⟩ :=
    halike.exists_sameFields (f.names_toJson_sublist.nodup (by decide))
  have hcode : Json.required? str? fields "code" = some f.code :=
    hsame.required? rfl (reads_str f.code)
  have hdescription : Json.required? str? fields "description" = some f.description :=
    hsame.required? rfl (reads_str f.description)
  have hline : Json.optional? nat? fields "line" = some f.line :=
    hsame.optional? (by simp) reads_nat (by simp)
  simp [ofJson?, record?, hcode, hdescription, hline]

end AppliedFix

namespace FileStatus

theorem ofName?_name (s : FileStatus) : ofName? s.name = some s := by
  cases s <;> decide

theorem reads_toJson (s : FileStatus) : Reads ofJson? s.toJson s :=
  reads_caseName s.ofName?_name

end FileStatus

namespace FileReport

theorem names_toJson_sublist (f : FileReport) : f.toJson.names.Sublist fieldNames := by
  simp only [toJson, names, List.map_append]
  exact ((((((List.Sublist.refl _).append (map_fst_nonemptyField_sublist _ _ _)).append
    (map_fst_optionalField_sublist _ _ _)).append (map_fst_optionalField_sublist _ _ _)).append
    (map_fst_optionalField_sublist _ _ _)).append (map_fst_optionalField_sublist _ _ _)).append
    (map_fst_optionalField_sublist _ _ _)

/-- The report on a document is read back from its JSON. -/
theorem reads_toJson (f : FileReport) : Reads ofJson? f.toJson f := by
  intro value halike
  obtain ⟨fields, rfl, hsame⟩ :=
    halike.exists_sameFields (f.names_toJson_sublist.nodup (by decide))
  have hpath : Json.required? str? fields "path" = some f.path :=
    hsame.required? rfl (reads_str f.path)
  have hstatus : Json.required? FileStatus.ofJson? fields "status" = some f.status :=
    hsame.required? rfl f.status.reads_toJson
  have hissues : Json.withDefault? (list? Issue.ofJson?) fields "issues" [] = some f.issues :=
    hsame.withDefault? rfl (reads_list Issue.reads_toJson f.issues) []
  have hfixes : Json.required? nat? fields "fixes_applied" = some f.fixesApplied :=
    hsame.required? rfl (reads_nat f.fixesApplied)
  have hremaining : Json.withDefault? (list? Issue.ofJson?) fields "issues_remaining" [] =
      some f.issuesRemaining :=
    hsame.withDefault? rfl (reads_list Issue.reads_toJson f.issuesRemaining) []
  have happlied : Json.withDefault? (list? AppliedFix.ofJson?) fields "applied" [] =
      some f.applied :=
    hsame.nonempty? (by simp [lookup?_append]) AppliedFix.reads_toJson
  have hbefore : Json.optional? str? fields "sha256_before" = some f.sha256Before :=
    hsame.optional? (by simp [lookup?_append]) reads_str (by simp)
  have hafter : Json.optional? str? fields "sha256_after" = some f.sha256After :=
    hsame.optional? (by simp [lookup?_append]) reads_str (by simp)
  have herror : Json.optional? str? fields "error" = some f.error :=
    hsame.optional? (by simp [lookup?_append]) reads_str (by simp)
  have hnote : Json.optional? str? fields "note" = some f.note :=
    hsame.optional? (by simp [lookup?_append]) reads_str (by simp)
  have hpatch : Json.optional? str? fields "patch" = some f.patch :=
    hsame.optional? (by simp [lookup?_append]) reads_str (by simp)
  simp [ofJson?, record?, hpath, hstatus, hissues, hfixes, hremaining, happlied, hbefore, hafter,
    herror, hnote, hpatch]

end FileReport

namespace RunSummary

/-- Totals are read back from their JSON. -/
theorem reads_toJson (s : RunSummary) : Reads ofJson? s.toJson s := by
  intro value halike
  obtain ⟨fields, rfl, hsame⟩ :=
    halike.exists_sameFields (by decide : (fieldNames).Nodup)
  have hrequired : ∀ name n, lookup? name _ = some (.nat n) →
      Json.required? nat? fields name = some n :=
    fun name n hget => hsame.required? hget (reads_nat n)
  have hdefault : ∀ name n, lookup? name _ = some (.nat n) →
      Json.withDefault? nat? fields name 0 = some n :=
    fun name n hget => hsame.withDefault? hget (reads_nat n) 0
  simp [ofJson?, record?, hrequired "files_processed" s.filesProcessed rfl,
    hrequired "errors_found" s.errorsFound rfl, hrequired "warnings_found" s.warningsFound rfl,
    hrequired "fixes_applied" s.fixesApplied rfl, hdefault "files_valid" s.filesValid rfl,
    hdefault "files_repaired" s.filesRepaired rfl,
    hdefault "files_would_repair" s.filesWouldRepair rfl,
    hdefault "files_unresolved" s.filesUnresolved rfl,
    hdefault "files_rejected" s.filesRejected rfl, hdefault "files_restored" s.filesRestored rfl,
    hdefault "files_failed" s.filesFailed rfl, hdefault "files_skipped" s.filesSkipped rfl]

end RunSummary

namespace ToolInfo

theorem names_toJson_sublist (t : ToolInfo) : t.toJson.names.Sublist fieldNames := by
  simp only [toJson, names, List.map_append]
  exact (List.Sublist.refl _).append (map_fst_optionalField_sublist _ _ _)

theorem reads_toJson (t : ToolInfo) : Reads ofJson? t.toJson t := by
  intro value halike
  obtain ⟨fields, rfl, hsame⟩ :=
    halike.exists_sameFields (t.names_toJson_sublist.nodup (by decide))
  have hname : Json.required? str? fields "name" = some t.name :=
    hsame.required? rfl (reads_str t.name)
  have hversion : Json.optional? str? fields "version" = some t.version :=
    hsame.optional? (by simp) reads_str (by simp)
  simp [ofJson?, record?, hname, hversion]

end ToolInfo

namespace RunInfo

theorem names_toJson_sublist (r : RunInfo) : r.toJson.names.Sublist fieldNames := by
  simp only [toJson, names, List.map_append]
  exact (((List.Sublist.refl _).append (map_fst_optionalField_sublist _ _ _)).append
    (map_fst_optionalField_sublist _ _ _)).append (List.Sublist.refl _)

theorem reads_toJson (r : RunInfo) : Reads ofJson? r.toJson r := by
  intro value halike
  obtain ⟨fields, rfl, hsame⟩ :=
    halike.exists_sameFields (r.names_toJson_sublist.nodup (by decide))
  have hstarted : Json.required? str? fields "started_at" = some r.startedAt :=
    hsame.required? rfl (reads_str r.startedAt)
  have hended : Json.optional? str? fields "ended_at" = some r.endedAt :=
    hsame.optional? (by simp [lookup?_append]) reads_str (by simp)
  have hduration : Json.optional? nat? fields "duration_ms" = some r.durationMs :=
    hsame.optional? (by simp [lookup?_append]) reads_nat (by simp)
  have hroot : Json.required? str? fields "root" = some r.root :=
    hsame.required? (by simp [lookup?_append]) (reads_str r.root)
  have hdryRun : Json.required? bool? fields "dry_run" = some r.dryRun :=
    hsame.required? (by simp [lookup?_append]) (reads_bool r.dryRun)
  have hrepair : Json.required? bool? fields "repair" = some r.repair :=
    hsame.required? (by simp [lookup?_append]) (reads_bool r.repair)
  simp [ofJson?, record?, hstarted, hended, hduration, hroot, hdryRun, hrepair]

end RunInfo

namespace Verdict

theorem names_toJson_sublist (v : Verdict) : v.toJson.names.Sublist fieldNames := by
  simp only [toJson, names, List.map_append]
  exact (List.Sublist.refl _).append (map_fst_nonemptyField_sublist _ _ _)

theorem reads_toJson (v : Verdict) : Reads ofJson? v.toJson v := by
  intro value halike
  obtain ⟨fields, rfl, hsame⟩ :=
    halike.exists_sameFields (v.names_toJson_sublist.nodup (by decide))
  have hname : VerdictStatus.ofName? v.status.name = some v.status := by
    cases v.status <;> rfl
  have hstatus : Json.required? statusOfJson? fields "status" = some v.status :=
    hsame.required? rfl (reads_caseName hname)
  have hreasons : Json.withDefault? (list? str?) fields "reasons" [] = some v.reasons :=
    hsame.nonempty? (by simp) reads_str
  simp [ofJson?, record?, hstatus, hreasons]

end Verdict

namespace RunReport

/-- The report on a run is read back from its JSON. -/
theorem reads_toJson (r : RunReport) : Reads ofJson? r.toJson r := by
  intro value halike
  obtain ⟨fields, rfl, hsame⟩ := halike.exists_sameFields (by decide : (fieldNames).Nodup)
  have hschema : Json.required? str? fields "schema" = some r.schema :=
    hsame.required? rfl (reads_str r.schema)
  have htool : Json.required? ToolInfo.ofJson? fields "tool" = some r.tool :=
    hsame.required? rfl r.tool.reads_toJson
  have hrun : Json.required? RunInfo.ofJson? fields "run" = some r.run :=
    hsame.required? rfl r.run.reads_toJson
  have hsummary : Json.required? RunSummary.ofJson? fields "summary" = some r.summary :=
    hsame.required? rfl r.summary.reads_toJson
  have hverdict : Json.required? Verdict.ofJson? fields "verdict" = some r.verdict :=
    hsame.required? rfl r.verdict.reads_toJson
  have hfiles : Json.withDefault? (list? FileReport.ofJson?) fields "files" [] = some r.files :=
    hsame.withDefault? rfl (reads_list FileReport.reads_toJson r.files) []
  simp [ofJson?, record?, hschema, htool, hrun, hsummary, hverdict, hfiles]

end RunReport

/-- Reports on runs and on documents, totals and issues are read back from their JSON as they were,
whatever they hold, and are then written the same again. The order in which objects list their
fields does not matter. -/
theorem reports_roundTrip :
    (∀ r : RunReport, RoundTrips RunReport.toJson RunReport.ofJson? r) ∧
      (∀ f : FileReport, RoundTrips FileReport.toJson FileReport.ofJson? f) ∧
      (∀ s : RunSummary, RoundTrips RunSummary.toJson RunSummary.ofJson? s) ∧
      ∀ i : Issue, RoundTrips Issue.toJson Issue.ofJson? i :=
  ⟨fun r => r.reads_toJson.roundTrips, fun f => f.reads_toJson.roundTrips,
    fun s => s.reads_toJson.roundTrips, fun i => i.reads_toJson.roundTrips⟩

end MarkupRepair
