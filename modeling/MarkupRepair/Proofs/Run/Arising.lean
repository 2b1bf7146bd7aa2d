import MarkupRepair.Proofs.Run.Document
import MarkupRepair.Run.Documents

/-!
# How the reports of a run arise

Whatever a store does, the report on a document that is processed arises in one of three ways: the
document could not be read, nothing was to be stored for it, or its repair was to be stored. The
report on a run is on the documents that the run went through, each processed or skipped.
-/

namespace MarkupRepair

variable {σ : Type} {host : Host σ} {settings : RunSettings}

/-- How the report on a document that is processed arises. -/
inductive FileReport.Arises (settings : RunSettings) (path : Path) : FileReport → Prop where
  /-- There was no text to be had. -/
  | unread (why : String) : Arises settings path (.ofError path why)
  /-- Nothing was to be stored for the document. -/
  | settled {t : Text} {report : FileReport} (settled : settled? settings path t = some report) :
      Arises settings path report
  /-- The repair was to be stored. -/
  | stored {t : Text} (unsettled : settled? settings path t = none)
      (outcome : Except EditError CommitOutcome) :
      Arises settings path ((FileReport.ofAnalysis path t (analyze t)).withOutcome
        (repair settings.repairOptions t) outcome)

/-- On any store, the report on a document that is processed arises in one of these ways. -/
theorem arises_processDocument (host : Host σ) (settings : RunSettings) (path : Path) (s : σ) :
    (host.run (processDocument settings path) s).1.Arises settings path := by
  rw [processDocument_eq, Host.run_bind]
  cases (host.run (readDocument (Path.join settings.root path)) s).1 with
  | error why => exact .unread why
  | ok t =>
      dsimp only
      cases hsettled : settled? settings path t with
      | some report => exact .settled hsettled
      | none =>
          dsimp only
          rw [Host.run_bind]
          exact .stored hsettled _

namespace FileReport

variable {path : Path} {f : FileReport}

theorem status_withOutcome_ne_skipped (f : FileReport) (result : RepairResult)
    (outcome : Except EditError CommitOutcome) :
    (f.withOutcome result outcome).status ≠ .skipped := by
  cases outcome with
  | error why => exact FileStatus.noConfusion
  | ok outcome =>
      cases outcome with
      | restored reason => exact FileStatus.noConfusion
      | committed digest issues =>
          unfold withOutcome withRepair
          dsimp only
          split <;> exact FileStatus.noConfusion

/-- A document that is processed is not skipped. -/
theorem Arises.status_ne_skipped (h : f.Arises settings path) : f.status ≠ .skipped := by
  cases h with
  | unread why => exact FileStatus.noConfusion
  | stored unsettled outcome => exact status_withOutcome_ne_skipped _ _ _
  | @settled t report settled =>
      obtain rfl | ⟨why, rfl⟩ | rfl := settled?_cases settled
      · obtain hstatus | hstatus := status_ofAnalysis path t (analyze t) <;>
          rw [hstatus] <;> exact FileStatus.noConfusion
      · exact FileStatus.noConfusion
      · exact FileStatus.noConfusion

/-- What a report lists as applied is what a repair of some text applies, if it is anything. -/
theorem Arises.applied_eq (h : f.Arises settings path) :
    f.applied = [] ∨ ∃ t, f.applied = (repair settings.repairOptions t).applied := by
  cases h with
  | unread why => exact Or.inl rfl
  | @settled t report settled =>
      obtain rfl | ⟨why, rfl⟩ | rfl := settled?_cases settled
      · exact Or.inl rfl
      · exact Or.inl rfl
      · exact Or.inr ⟨t, rfl⟩
  | @stored t unsettled outcome =>
      cases outcome with
      | error why => exact Or.inl rfl
      | ok outcome =>
          cases outcome with
          | restored reason => exact Or.inl rfl
          | committed digest issues => exact Or.inr ⟨t, rfl⟩

end FileReport

/-- The report on a document of a run that may have been cancelled. -/
def processUnless (settings : RunSettings) (cancelled : Bool) (path : Path) :
    Script FileReport :=
  if cancelled then pure (FileReport.ofSkipped path) else processDocument settings path

theorem processDocuments_cons (settings : RunSettings) (cancelled : Bool) (path : Path)
    (rest : List Path) :
    processDocuments settings cancelled (path :: rest) = (do
      let report ← processUnless settings cancelled path
      let others ← processDocuments settings
        (cancelled || (settings.failFast && report.endsRun)) rest
      return { others with files := report :: others.files }) := by
  cases cancelled <;> rfl

/-- The reports on the documents of a run are on documents that were skipped or processed. -/
theorem skipped_or_arises_of_mem_files {cancelled : Bool} {paths : List Path} {s : σ} :
    ∀ f ∈ (host.run (processDocuments settings cancelled paths) s).1.files,
      ∃ path ∈ paths, f = .ofSkipped path ∨ f.Arises settings path := by
  induction paths generalizing cancelled s with
  | nil => exact List.forall_mem_nil _
  | cons path rest ih =>
      rw [processDocuments_cons, Host.run_bind, Host.run_bind]
      simp only [Script.pure_eq_done, Host.run_done, List.forall_mem_cons]
      constructor
      · refine ⟨path, List.mem_cons_self, ?_⟩
        cases cancelled with
        | true => exact Or.inl rfl
        | false => exact Or.inr (arises_processDocument host settings path s)
      · intro f hf
        obtain ⟨p, hp, harises⟩ := ih f hf
        exact ⟨p, List.mem_cons_of_mem _ hp, harises⟩

/-- The documents of a list are processed in order, without looking for them. -/
theorem runDocuments_listed (settings : RunSettings) (paths : List Path) (tool : ToolInfo)
    (cancelled : Bool) (started : Instant) :
    runDocuments settings (.listed paths) tool cancelled started = (do
      let processed ← processDocuments settings cancelled
        ((Path.keepLast paths).mergeSort Path.atOrBefore)
      let ended ← Script.request .now
      let run : RunInfo :=
        { startedAt := started.toText
          endedAt := some ended.toText
          durationMs := some (started.millisecondsUntil ended)
          root := settings.root
          dryRun := settings.dryRun
          repair := settings.repair }
      return ⟨.ok (RunReport.ofFiles tool run processed.files), processed.cancelled⟩) := rfl

namespace RunSettings

/-- Take the lock if documents may be written. -/
def lock (settings : RunSettings) : Script (Except LockError Unit) :=
  if settings.writesDocuments then RunLock.acquire settings.root else return .ok ()

/-- Give the lock back if documents may have been written. -/
def unlock (settings : RunSettings) : Script Unit :=
  if settings.writesDocuments then RunLock.release settings.root else return ()

end RunSettings

/-- A run takes the time and its lock, goes through its documents and gives the lock back. -/
theorem run_eq (settings : RunSettings) (source : DocumentSource) (tool : ToolInfo)
    (cancelled : Bool) : run settings source tool cancelled = (do
      let started ← Script.request .now
      match ← settings.lock with
      | .error why => return ⟨.error (.lock why), cancelled⟩
      | .ok () =>
          let outcome ← runDocuments settings source tool cancelled started
          settings.unlock
          return outcome) := by
  unfold run RunSettings.lock RunSettings.unlock
  cases settings.writesDocuments with
  | true => rfl
  | false => simp only [Bool.false_eq_true, if_false, pure_bind, bind_pure]

/-- The report on a run is on the documents that it went through. -/
theorem exists_documents_of_report {source : DocumentSource} {tool : ToolInfo} {cancelled : Bool}
    {s : σ} {report : RunReport}
    (h : (host.run (run settings source tool cancelled) s).1.report = .ok report) :
    ∃ info paths start, report = RunReport.ofFiles tool info
      (host.run (processDocuments settings cancelled paths) start).1.files := by
  rw [run_eq, Host.run_bind, Host.run_bind] at h
  generalize host.run (Script.request .now) s = begun at h
  cases hlock : (host.run settings.lock begun.2).1 with
  | error why =>
      rw [hlock] at h
      cases h
  | ok value =>
      rw [hlock] at h
      dsimp only at h
      rw [Host.run_bind, Host.run_bind, runDocuments, Host.run_bind] at h
      generalize host.run source.documents.run _ = found at h
      obtain ⟨found, start⟩ := found
      cases found with
      | error why => cases h
      | ok paths =>
          dsimp only at h
          rw [Host.run_bind, Host.run_bind] at h
          exact ⟨_, paths, start, (Except.ok.inj h).symm⟩

end MarkupRepair
