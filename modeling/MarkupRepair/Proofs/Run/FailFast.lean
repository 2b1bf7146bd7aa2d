import MarkupRepair.Proofs.Run.Arising
import MarkupRepair.Proofs.Run.Discovery
import MarkupRepair.Proofs.Run.Parallel

/-!
# Which documents of a run are processed

A run processes its documents in their order up to some point and skips the rest. A run that was
cancelled before skips all of them, a run that stops at the first fault skips those after it, and
any other run skips none. Every listed document is reported once, and the store is called only for
the documents that are processed.
-/

namespace MarkupRepair

namespace Host

variable {σ α β : Type}

/-- The calls of a run that are calls of the document store, in order. -/
def storeCalls (host : Host σ) (script : Script α) (s : σ) : List (Call σ) :=
  (host.calls script s).filter (·.request.storeCall?.isSome)

@[simp] theorem storeCalls_done (host : Host σ) (value : α) (s : σ) :
    host.storeCalls (.done value) s = [] := rfl

theorem storeCalls_bind (host : Host σ) (script : Script α) (f : α → Script β) (s : σ) :
    host.storeCalls (script >>= f) s = host.storeCalls script s ++
      host.storeCalls (f (host.run script s).1) (host.run script s).2 := by
  rw [storeCalls, calls_bind, List.filter_append]
  rfl

/-- A request that is not for the document store is no call of it. -/
theorem storeCalls_request (host : Host σ) {r : Request} (h : r.storeCall? = none) (s : σ) :
    host.storeCalls (Script.request r) s = [] := by
  simp [storeCalls, Script.request, h]

theorem storeCalls_lock (host : Host σ) (settings : RunSettings) (s : σ) :
    host.storeCalls settings.lock s = [] := by
  unfold RunSettings.lock RunLock.acquire
  split
  · rw [storeCalls_bind, storeCalls_request host rfl, List.nil_append]
    split <;> rfl
  · rfl

theorem storeCalls_unlock (host : Host σ) (settings : RunSettings) (s : σ) :
    host.storeCalls settings.unlock s = [] := by
  unfold RunSettings.unlock RunLock.release
  split
  · exact storeCalls_request host rfl s
  · rfl

end Host

namespace FileReport

theorem endsRun_iff {f : FileReport} :
    f.endsRun = true ↔ f.status = .restored ∨ f.status = .processingError := by
  simp only [endsRun, Bool.or_eq_true, beq_iff_eq]

/-- Whether documents are reported on up to a fault, if there is one, and skipped after it. -/
def StopAtFault (files : List FileReport) : Prop :=
  ∃ before after, files = before ++ after ∧
    (∀ f ∈ before, f.status ∉ [.skipped, .restored, .processingError]) ∧
    (after = [] ∨ ∃ fault rest, after = fault :: rest ∧
      fault.status ∈ [.restored, .processingError] ∧ ∀ f ∈ rest, f.status = .skipped)

/-- A report without a fault may be put in front. -/
theorem StopAtFault.cons {f : FileReport} {files : List FileReport}
    (hf : f.status ∉ [.skipped, .restored, .processingError]) (h : StopAtFault files) :
    StopAtFault (f :: files) := by
  obtain ⟨before, after, rfl, hbefore, hafter⟩ := h
  exact ⟨f :: before, after, rfl, List.forall_mem_cons.mpr ⟨hf, hbefore⟩, hafter⟩

/-- The documents that are not reported as skipped. -/
def notSkipped (files : List FileReport) : List Path :=
  (files.filter (·.status != .skipped)).map (·.path)

end FileReport

/-- Process documents one after another, whatever happens. -/
def RunSettings.processAll (settings : RunSettings) (paths : List Path) :
    Script (List FileReport) :=
  Script.oneByOne (paths.map (processDocument settings))

theorem RunSettings.processAll_cons (settings : RunSettings) (path : Path) (rest : List Path) :
    settings.processAll (path :: rest) = (do
      let report ← processDocument settings path
      let reports ← settings.processAll rest
      return report :: reports) := rfl

/-- A run that is not cancelled processes the next document and then looks whether to go on. -/
theorem processDocuments_next (settings : RunSettings) (path : Path) (rest : List Path) :
    processDocuments settings false (path :: rest) = (do
      let report ← processDocument settings path
      let others ← processDocuments settings (settings.failFast && report.endsRun) rest
      return { others with files := report :: others.files }) := rfl

section Processing

variable {σ : Type} {host : Host σ} {settings : RunSettings} {paths : List Path} {s : σ}

/-- Documents that are processed are not reported as skipped. -/
theorem status_ne_skipped_of_mem_processAll :
    ∀ f ∈ (host.run (settings.processAll paths) s).1, f.status ≠ .skipped := by
  induction paths generalizing s with
  | nil => exact List.forall_mem_nil _
  | cons path rest ih =>
      rw [RunSettings.processAll_cons, Host.run_bind, Host.run_bind, Script.pure_eq_done,
        Host.run_done, List.forall_mem_cons]
      exact ⟨(arises_processDocument host settings path s).status_ne_skipped, ih⟩

/-- A run that is cancelled asks for nothing and skips all documents. -/
theorem processDocuments_cancelled (settings : RunSettings) (paths : List Path) :
    processDocuments settings true paths = .done ⟨paths.map .ofSkipped, true⟩ := by
  induction paths with
  | nil => rfl
  | cons path rest ih =>
      simp only [processDocuments, if_true, Bool.true_or, ih, Script.done_bind,
        Script.pure_eq_done, List.map_cons]

/-- Documents are processed one after another up to some point and skipped after it, without any
call of the store. -/
theorem exists_processed_skipped (host : Host σ) (settings : RunSettings) (cancelled : Bool)
    (paths : List Path) (s : σ) :
    ∃ processed skipped, paths = processed ++ skipped ∧
      (host.run (processDocuments settings cancelled paths) s).1.files =
        (host.run (settings.processAll processed) s).1 ++ skipped.map .ofSkipped ∧
      host.storeCalls (processDocuments settings cancelled paths) s =
        host.storeCalls (settings.processAll processed) s := by
  induction paths generalizing cancelled s with
  | nil => exact ⟨[], [], rfl, rfl, rfl⟩
  | cons path rest ih =>
      cases cancelled with
      | true =>
          rw [processDocuments_cancelled]
          exact ⟨[], path :: rest, rfl, rfl, rfl⟩
      | false =>
          obtain ⟨processed, skipped, rfl, hfiles, hcalls⟩ := ih
            (settings.failFast && (host.run (processDocument settings path) s).1.endsRun)
            (host.run (processDocument settings path) s).2
          refine ⟨path :: processed, skipped, rfl, ?_, ?_⟩
          · rw [processDocuments_next, RunSettings.processAll_cons]
            simp only [Host.run_bind, Script.pure_eq_done, Host.run_done, hfiles,
              List.cons_append]
          · rw [processDocuments_next, RunSettings.processAll_cons]
            simp only [Host.storeCalls_bind, Script.pure_eq_done, Host.storeCalls_done, hcalls]

/-- A run that stops at the first fault reports on documents up to a fault and skips the rest. -/
theorem stopAtFault_processDocuments (hfast : settings.failFast = true) (paths : List Path)
    (s : σ) :
    FileReport.StopAtFault (host.run (processDocuments settings false paths) s).1.files := by
  induction paths generalizing s with
  | nil => exact ⟨[], [], rfl, List.forall_mem_nil _, Or.inl rfl⟩
  | cons path rest ih =>
      have hstatus := (arises_processDocument host settings path s).status_ne_skipped
      rw [processDocuments_next, Host.run_bind, Host.run_bind, hfast, Bool.true_and]
      generalize host.run (processDocument settings path) s = first at hstatus ⊢
      cases hends : first.1.endsRun with
      | true =>
          rw [processDocuments_cancelled]
          refine ⟨[], _, rfl, List.forall_mem_nil _, Or.inr ⟨first.1, _, rfl, ?_, ?_⟩⟩
          · simpa using FileReport.endsRun_iff.mp hends
          · simp [FileReport.ofSkipped]
      | false =>
          refine (ih first.2).cons ?_
          have hnone := mt FileReport.endsRun_iff.mpr (Bool.not_eq_true _ ▸ hends)
          simpa [hstatus] using hnone

/-- The documents that are not reported as skipped are those that were processed. -/
theorem notSkipped_append_skipped (host : Host σ) (settings : RunSettings) (s : σ)
    (processed skipped : List Path) :
    ((host.run (settings.processAll processed) s).1 ++
        skipped.map FileReport.ofSkipped).filter (·.status != .skipped) =
        (host.run (settings.processAll processed) s).1 ∧
      FileReport.notSkipped ((host.run (settings.processAll processed) s).1 ++
        skipped.map FileReport.ofSkipped) = processed := by
  have hfilter : ((host.run (settings.processAll processed) s).1 ++
      skipped.map FileReport.ofSkipped).filter (·.status != .skipped) =
      (host.run (settings.processAll processed) s).1 := by
    have hprocessed : (host.run (settings.processAll processed) s).1.filter
        (·.status != .skipped) = (host.run (settings.processAll processed) s).1 :=
      List.filter_eq_self.mpr fun f hf =>
        bne_iff_ne.mpr (status_ne_skipped_of_mem_processAll f hf)
    have hskipped : (skipped.map FileReport.ofSkipped).filter (·.status != .skipped) = [] := by
      simp [List.filter_eq_nil_iff, FileReport.ofSkipped]
    rw [List.filter_append, hprocessed, hskipped, List.append_nil]
  refine ⟨hfilter, ?_⟩
  rw [FileReport.notSkipped, hfilter]
  exact map_path_oneByOne host settings processed s

/-- How the documents of a run are reported on, in the order in which their turn comes, and what
is asked of the store for them. -/
structure ReportedInTurn (host : Host σ) (settings : RunSettings) (cancelled : Bool)
    (documents : List Path) (start : σ) (files : List FileReport) (storeCalls : List (Call σ)) :
    Prop where
  /-- There is one report for each document. -/
  paths : files.map (·.path) = documents
  /-- The documents that are not skipped are reported on as when they alone are processed. -/
  processed : files.filter (·.status != .skipped) =
    (host.run (settings.processAll (FileReport.notSkipped files)) start).1
  /-- The store is called for no others. -/
  calls : storeCalls = host.storeCalls (settings.processAll (FileReport.notSkipped files)) start
  /-- A run that was cancelled before skips all documents and makes no call of the store. -/
  idle : cancelled = true → (∀ f ∈ files, f.status = .skipped) ∧ storeCalls = []
  /-- A run that goes on after a fault skips none. -/
  complete : cancelled = false → settings.failFast = false → ∀ f ∈ files, f.status ≠ .skipped
  /-- A run that stops at the first fault skips the documents after it and no others. -/
  stops : cancelled = false → settings.failFast = true → FileReport.StopAtFault files

/-- Documents are reported on in this way on any store. -/
theorem reportedInTurn_processDocuments (host : Host σ) (settings : RunSettings)
    (cancelled : Bool) (documents : List Path) (s : σ) :
    ReportedInTurn host settings cancelled documents s
      (host.run (processDocuments settings cancelled documents) s).1.files
      (host.storeCalls (processDocuments settings cancelled documents) s) := by
  obtain ⟨processed, skipped, hdocuments, hfiles, hcalls⟩ :=
    exists_processed_skipped host settings cancelled documents s
  obtain ⟨hfilter, hnotSkipped⟩ := notSkipped_append_skipped host settings s processed skipped
  rw [← hfiles] at hfilter hnotSkipped
  constructor
  case paths =>
    have hskipped : (skipped.map FileReport.ofSkipped).map (·.path) = skipped := by
      simp [FileReport.ofSkipped, Function.comp_def]
    rw [hfiles, List.map_append, hskipped, RunSettings.processAll, map_path_oneByOne, hdocuments]
  case processed => rw [hfilter, hnotSkipped]
  case calls => rw [hcalls, hnotSkipped]
  case idle =>
    rintro rfl
    rw [processDocuments_cancelled]
    exact ⟨by simp [FileReport.ofSkipped], rfl⟩
  case complete =>
    rintro rfl hfast
    rw [processDocuments_eq_oneByOne hfast, Host.run_bind]
    exact status_ne_skipped_of_mem_processAll
  case stops =>
    rintro rfl hfast
    exact stopAtFault_processDocuments hfast documents s

end Processing

section Runs

variable {σ : Type} {host : Host σ} {settings : RunSettings} {s : σ}

/-- A run over listed documents processes them once it has its lock. All its store calls are made
for them. -/
theorem run_listed_of_locked (paths : List Path) (tool : ToolInfo) (cancelled : Bool)
    (hlock : (host.run settings.lock (host.answer .now s).2).1 = .ok ()) :
    (∃ info, (host.run (run settings (.listed paths) tool cancelled) s).1.report =
        .ok (RunReport.ofFiles tool info (host.run (processDocuments settings cancelled
          ((Path.keepLast paths).mergeSort Path.atOrBefore))
            (host.run settings.lock (host.answer .now s).2).2).1.files)) ∧
      host.storeCalls (run settings (.listed paths) tool cancelled) s =
        host.storeCalls (processDocuments settings cancelled
          ((Path.keepLast paths).mergeSort Path.atOrBefore))
            (host.run settings.lock (host.answer .now s).2).2 := by
  have hbegun : host.run (Script.request .now) s = host.answer .now s := rfl
  rw [run_eq]
  constructor
  · rw [Host.run_bind, Host.run_bind, hbegun, hlock]
    dsimp only
    rw [Host.run_bind, Host.run_bind, runDocuments_listed, Host.run_bind, Host.run_bind]
    exact ⟨_, rfl⟩
  · have hnow : ∀ s, host.storeCalls (Script.request .now) s = [] :=
      host.storeCalls_request rfl
    rw [Host.storeCalls_bind, Host.storeCalls_bind, hnow, hbegun, hlock, Host.storeCalls_lock]
    dsimp only
    rw [Host.storeCalls_bind, Host.storeCalls_bind, runDocuments_listed, Host.storeCalls_bind,
      Host.storeCalls_bind, hnow, Host.storeCalls_unlock]
    simp

/-- A run that does not get its lock calls the store for nothing. -/
theorem run_of_not_locked (source : DocumentSource) (tool : ToolInfo) (cancelled : Bool)
    {why : LockError} (hlock : (host.run settings.lock (host.answer .now s).2).1 = .error why) :
    (host.run (run settings source tool cancelled) s).1.report = .error (.lock why) ∧
      host.storeCalls (run settings source tool cancelled) s = [] := by
  have hbegun : host.run (Script.request .now) s = host.answer .now s := rfl
  have hnow : host.storeCalls (Script.request .now) s = [] := host.storeCalls_request rfl s
  rw [run_eq]
  constructor
  · rw [Host.run_bind, Host.run_bind, hbegun, hlock]
    rfl
  · rw [Host.storeCalls_bind, Host.storeCalls_bind, hnow, hbegun, hlock, Host.storeCalls_lock]
    rfl

end Runs

/-- A run over listed documents that gets its lock, or needs none, reports once on every listed
document, of several spellings of one path on the last in the list. In the order in which their
turn comes the documents are processed until the run is cancelled and skipped after that: all of
them when it was cancelled before, those after the first fault when the run stops there, and none
otherwise. The store is called for the documents that are not skipped, one after another, and for
nothing else. A run that does not get its lock has no report and makes no call of the store. -/
theorem run_reportedInTurn {σ : Type} (host : Host σ) (settings : RunSettings)
    (paths : List Path) (tool : ToolInfo) (cancelled : Bool) (s : σ) :
    let outcome := (host.run (run settings (.listed paths) tool cancelled) s).1
    let storeCalls := host.storeCalls (run settings (.listed paths) tool cancelled) s
    let locked := host.run settings.lock (host.answer .now s).2
    (locked.1 = .ok () → ∃ report files, outcome.report = .ok report ∧
      (∀ p ∈ paths, report.files.countP (fun f => Path.same p f.path) = 1) ∧
      (∀ f ∈ report.files, f.path ∈ paths) ∧
      report.files.Perm files ∧
      ReportedInTurn host settings cancelled ((Path.keepLast paths).mergeSort Path.atOrBefore)
        locked.2 files storeCalls) ∧
    ∀ why, locked.1 = .error why → outcome.report = .error (.lock why) ∧ storeCalls = [] := by
  intro outcome storeCalls locked
  constructor
  · intro hlock
    obtain ⟨⟨info, hreport⟩, hcalls⟩ := run_listed_of_locked paths tool cancelled hlock
    have hturn := reportedInTurn_processDocuments host settings cancelled
      ((Path.keepLast paths).mergeSort Path.atOrBefore) locked.2
    rw [← hcalls] at hturn
    generalize (host.run (processDocuments settings cancelled
      ((Path.keepLast paths).mergeSort Path.atOrBefore)) locked.2).1.files = files at hturn hreport
    have hperm : (RunReport.ofFiles tool info files).files.Perm files :=
      List.mergeSort_perm files _
    have hdocuments : (files.map (·.path)).Perm (Path.keepLast paths) :=
      hturn.paths ▸ List.mergeSort_perm _ _
    refine ⟨_, files, hreport, ?_, ?_, hperm, hturn⟩
    · intro p hp
      have hcount : (files.map (·.path)).countP (Path.same p) = 1 :=
        (hdocuments.countP_eq _).trans (Path.countP_same_keepLast p hp)
      rw [hperm.countP_eq, ← hcount, List.countP_map]
      rfl
    · intro f hf
      have hmem : f.path ∈ files.map (·.path) := List.mem_map_of_mem (hperm.mem_iff.mp hf)
      exact Path.keepLast_subset paths (hdocuments.mem_iff.mp hmem)
  · intro why hlock
    exact run_of_not_locked _ tool cancelled hlock

/-- A run that stops at the first fault gets its lock on an empty store and reports once on each of
two documents that are not there, up to the fault. -/
theorem run_reportedInTurn_emptyStore :
    (Memory.host.run (RunSettings.lock { repair := true, failFast := true })
        (Memory.host.answer .now []).2).1 = .ok () ∧
      ∃ report files, (Memory.host.run (run { repair := true, failFast := true }
          (.listed ["a.xhtml", "b.xhtml"]) ⟨"xhtmlfix", none⟩ false) []).1.report = .ok report ∧
        report.files.countP (fun f => Path.same "b.xhtml" f.path) = 1 ∧
        report.files.Perm files ∧ files.map (·.path) = ["a.xhtml", "b.xhtml"] ∧
        FileReport.StopAtFault files := by
  have hlock : (Memory.host.run (RunSettings.lock { repair := true, failFast := true })
      (Memory.host.answer .now []).2).1 = .ok () := rfl
  have hkept : Path.keepLast ["a.xhtml", "b.xhtml"] = ["a.xhtml", "b.xhtml"] := by
    decide +kernel
  have hsorted : ["a.xhtml", "b.xhtml"].Pairwise fun p q => Path.atOrBefore p q = true := by
    decide +kernel
  obtain ⟨hreported, -⟩ := run_reportedInTurn Memory.host { repair := true, failFast := true }
    ["a.xhtml", "b.xhtml"] ⟨"xhtmlfix", none⟩ false []
  obtain ⟨report, files, hreport, honce, -, hperm, hturn⟩ := hreported hlock
  rw [hkept, List.mergeSort_of_pairwise hsorted] at hturn
  exact ⟨hlock, report, files, hreport, honce "b.xhtml" (by simp), hperm, hturn.paths,
    hturn.stops rfl rfl⟩

end MarkupRepair
