import MarkupRepair.Proofs.Repair.Rootless
import MarkupRepair.Proofs.Report.Verdict
import MarkupRepair.Proofs.Run.Arising
import MarkupRepair.Proofs.Run.Discovery
import MarkupRepair.Proofs.Run.OneFailure
import MarkupRepair.Proofs.Storage.Commit

/-!
# What a store holds after a run with exit code zero

A document that passes is free of errors on the store, not just in its report, even when
writes may store other bytes and report success. The run keeps this for one document while it
processes the others, and the lock file, which is empty, can be no document that passes.
-/

namespace MarkupRepair

/-- Whether analysing a text finds no error and no fatal issue. -/
def FreeOfErrors (t : Text) : Prop := ∀ i ∈ analyze t, i.severity.isError = false

/-- Whether a store holds at a path a text without errors. -/
def Memory.HoldsSound (m : Memory) (path : Path) : Prop :=
  ∃ bytes t, m.get? path = some bytes ∧ Text.decode? bytes = some t ∧ FreeOfErrors t

section Documents

variable {stores : ByteArray → ByteArray → Prop} {settings : RunSettings} {path : Path}
  {m : Memory}

/-- Reading a document changes nothing and gives the text that the store holds. -/
theorem ensures_readDocument :
    (readDocument path).Ensures (Memory.mayAnswer stores) (fun _ => True)
      (fun answer after => after = m ∧
        ∀ t, answer = .ok t → ∃ bytes, m.get? path = some bytes ∧ Text.decode? bytes = some t)
      m := by
  simp only [readDocument, Script.request, Script.ask_bind, Script.done_bind, Script.ensures_ask]
  intro answer after hread
  refine ⟨trivial, ?_⟩
  cases answer with
  | error why =>
      obtain rfl : after = m := hread
      exact ⟨rfl, fun t h => by cases h⟩
  | ok bytes =>
      obtain ⟨hbytes, rfl⟩ := hread
      cases ht : Text.decode? bytes with
      | none =>
          simp only [ht]
          exact ⟨rfl, fun t h => by cases h⟩
      | some t =>
          simp only [ht]
          refine ⟨rfl, ?_⟩
          rintro t' ⟨⟩
          exact ⟨bytes, hbytes, ht⟩

/-- What has been done when a document passes: it held a text without errors and was left
alone, or it was repaired and its issues are those of what was stored. -/
inductive Passage (stores : ByteArray → ByteArray → Prop) (options : RepairOptions)
    (target : Path) (m after : Memory) : Prop where
  | kept (sound : m.HoldsSound target) (same : after = m)
  | stored {bytes : ByteArray} {t : Text} {backup : Path} {digest : String} {issues : List Issue}
      (held : m.get? target = some bytes) (decoded : Text.decode? bytes = some t)
      (repaired : StoredRepair stores target backup t (repair options t).content digest issues
        m after)
      (sound : ∀ i ∈ issues, i.severity.isError = false)

theorem FileReport.not_hasErrors_iff {f : FileReport} :
    f.hasErrors = false ↔ ∀ i ∈ f.issuesRemaining, i.severity.isError = false := by
  simp only [hasErrors, List.any_eq_false, Bool.not_eq_true]

/-- A document that was analysed and left alone passes when it has no errors. -/
theorem FileReport.freeOfErrors_of_passes_ofAnalysis {t : Text}
    (h : (FileReport.ofAnalysis path t (analyze t)).passes = true) : FreeOfErrors t := by
  have herrors : (FileReport.ofAnalysis path t (analyze t)).hasErrors = false := by
    unfold FileReport.ofAnalysis at h ⊢
    cases hempty : (analyze t).isEmpty <;> simpa [FileReport.passes, hempty] using h
  exact FileReport.not_hasErrors_iff.mp herrors

/-- Of the outcomes of storing a repair only a repair that is stored and has no errors passes. -/
theorem FileReport.exists_of_passes_withOutcome {f : FileReport} {result : RepairResult}
    {outcome : Except EditError CommitOutcome} (h : (f.withOutcome result outcome).passes = true) :
    ∃ digest issues, outcome = .ok (.committed digest issues) ∧
      ∀ i ∈ issues, i.severity.isError = false := by
  cases outcome with
  | error why => cases h
  | ok outcome =>
      cases outcome with
      | restored reason => cases h
      | committed digest issues =>
          have herrors : (f.withOutcome result (.ok (.committed digest issues))).hasErrors =
              false := by
            unfold FileReport.withOutcome at h ⊢
            cases hany : issues.any (·.severity.isError) <;>
              simpa [FileReport.passes, FileReport.withRepair, hany] using h
          exact ⟨digest, issues, rfl, FileReport.not_hasErrors_iff.mp herrors⟩

/-- A document that passes after repairing it was left without errors or stored without. -/
theorem ensures_repairDocument {bytes : ByteArray} {t : Text}
    (hbytes : m.get? (Path.join settings.root path) = some bytes)
    (ht : Text.decode? bytes = some t) :
    (repairDocument settings path t (.ofAnalysis path t (analyze t))).Ensures
      (Memory.mayAnswer stores) (fun _ => True)
      (fun report after => report.passes = true →
        Passage stores settings.repairOptions (Path.join settings.root path) m after) m := by
  unfold repairDocument
  dsimp only
  split
  next =>
    intro h
    exact .kept ⟨bytes, t, hbytes, ht, FileReport.freeOfErrors_of_passes_ofAnalysis h⟩ rfl
  next =>
    split
    next => exact fun h => by cases h
    next =>
      split
      next => exact fun h => by cases h
      next =>
        rw [Script.ensures_bind]
        refine Script.Ensures.mono ensures_commitRepair_stored ?_
        intro outcome after hstored h
        obtain ⟨digest, issues, rfl, hsound⟩ := FileReport.exists_of_passes_withOutcome h
        exact .stored hbytes ht (hstored digest issues rfl) hsound

/-- A document that passes has gone through a passage. -/
theorem ensures_processDocument :
    (processDocument settings path).Ensures (Memory.mayAnswer stores) (fun _ => True)
      (fun report after => report.passes = true →
        Passage stores settings.repairOptions (Path.join settings.root path) m after) m := by
  rw [processDocument, Script.ensures_bind]
  refine ensures_readDocument.mono ?_
  intro answer after hread
  obtain ⟨rfl, hread⟩ := hread
  cases answer with
  | error why => exact fun h => by cases h
  | ok t =>
      obtain ⟨bytes, hbytes, ht⟩ := hread t rfl
      dsimp only
      split
      next =>
        intro h
        exact .kept ⟨bytes, t, hbytes, ht, FileReport.freeOfErrors_of_passes_ofAnalysis h⟩ rfl
      next => exact ensures_repairDocument hbytes ht

namespace Passage

variable {options : RepairOptions} {target : Path} {after : Memory}

/-- After the passage the store holds a text without errors. -/
theorem holdsSound (h : Passage stores options target m after) : after.HoldsSound target := by
  cases h with
  | kept sound same => exact same ▸ sound
  | stored _ _ repaired sound =>
      obtain ⟨bytes, t, hbytes, _, _, ht, _, rfl⟩ := repaired.holds
      exact ⟨bytes, t, hbytes, ht, sound⟩

/-- The passage changes nothing else. -/
theorem get?_of_ne (h : Passage stores options target m after) {other : Path}
    (hne : other ≠ target) :
    after.get? other = m.get? other := by
  cases h with
  | kept _ same => rw [same]
  | stored _ _ repaired _ => exact repaired.other other hne

/-- An empty file goes through no passage, when what is stored instead of some bytes has
another digest. -/
theorem get?_ne_empty (h : Passage stores options target m after)
    (hdigest : ∀ bytes stored, stores bytes stored → sha256Hex stored = sha256Hex bytes →
      stored = bytes) : m.get? target ≠ some ByteArray.empty := by
  have hnil : Text.decode? ByteArray.empty = some [] := Text.decode?_encode []
  have herrors : ∀ t ∈ bareDeclarations, ¬ FreeOfErrors t := by
    intro t ht hfree
    obtain ⟨i, hi, herror⟩ := exists_error_of_mem_bareDeclarations ht
    rw [hfree i hi] at herror
    cases herror
  intro hget
  cases h with
  | kept sound _ =>
      obtain ⟨bytes, t, hbytes, ht, hsound⟩ := sound
      obtain rfl : ByteArray.empty = bytes := Option.some.inj (hget.symm.trans hbytes)
      obtain rfl : [] = t := Option.some.inj (hnil.symm.trans ht)
      exact herrors [] List.mem_cons_self hsound
  | @stored bytes t backup digest issues held decoded repaired sound =>
      obtain rfl : ByteArray.empty = bytes := Option.some.inj (hget.symm.trans held)
      obtain rfl : [] = t := Option.some.inj (hnil.symm.trans decoded)
      obtain ⟨bytes, t, _, hs, hd, ht, _, rfl⟩ := repaired.holds
      obtain rfl := hdigest _ bytes hs hd
      obtain rfl : (repair options []).content = t := by
        rw [Text.decode?_encode] at ht
        exact Option.some.inj ht
      exact herrors _ (repair_mem_bareDeclarations List.mem_cons_self) sound

end Passage

/-- Processing documents that all pass leaves each of them without errors on the store and
changes no other path. None of them was empty. -/
theorem ensures_processDocuments
    (hdigest : ∀ bytes stored, stores bytes stored → sha256Hex stored = sha256Hex bytes →
      stored = bytes) (cancelled : Bool) (paths : List Path) :
    (processDocuments settings cancelled paths).Ensures (Memory.mayAnswer stores)
      (fun _ => True)
      (fun processed after => (∀ f ∈ processed.files, f.passes = true) →
        (∀ p ∈ paths, after.HoldsSound (Path.join settings.root p)) ∧
        (∀ p ∈ paths, m.get? (Path.join settings.root p) ≠ some ByteArray.empty) ∧
        ∀ other, (∀ p ∈ paths, other ≠ Path.join settings.root p) →
          after.get? other = m.get? other) m := by
  induction paths generalizing cancelled m with
  | nil => simp [processDocuments]
  | cons path rest ih =>
      have hfirst : (processUnless settings cancelled path).Ensures
          (Memory.mayAnswer stores) (fun _ => True) (fun report after => report.passes = true →
            Passage stores settings.repairOptions (Path.join settings.root path) m after) m := by
        cases cancelled with
        | true => exact fun h => by cases h
        | false => exact ensures_processDocument
      rw [processDocuments_cons, Script.ensures_bind]
      refine hfirst.mono ?_
      intro report between hreport
      rw [Script.ensures_bind]
      refine (ih _).mono ?_
      intro processed after hrest hpass
      rw [List.forall_mem_cons] at hpass
      have hpassage := hreport hpass.1
      obtain ⟨hsound, hnonempty, hsame⟩ := hrest hpass.2
      refine ⟨?_, ?_, ?_⟩
      · rw [List.forall_mem_cons]
        refine ⟨?_, hsound⟩
        by_cases hagain : ∃ p ∈ rest, Path.join settings.root path = Path.join settings.root p
        · obtain ⟨p, hp, heq⟩ := hagain
          exact heq ▸ hsound p hp
        · have hkeep := hsame (Path.join settings.root path) fun p hp heq => hagain ⟨p, hp, heq⟩
          obtain ⟨bytes, t, hbytes, ht, hfree⟩ := hpassage.holdsSound
          exact ⟨bytes, t, hkeep.trans hbytes, ht, hfree⟩
      · have hhead := hpassage.get?_ne_empty hdigest
        rw [List.forall_mem_cons]
        refine ⟨hhead, ?_⟩
        intro p hp
        by_cases heq : Path.join settings.root p = Path.join settings.root path
        · exact heq ▸ hhead
        · exact hpassage.get?_of_ne heq ▸ hnonempty p hp
      · intro other hother
        rw [List.forall_mem_cons] at hother
        rw [hsame other hother.2, hpassage.get?_of_ne hother.1]

/-- What a report with exit code zero says about the listed documents: each is without errors on
the store, and none was empty. -/
theorem ensures_runDocuments {tool : ToolInfo} {cancelled : Bool} {started : Instant}
    {paths : List Path}
    (hdigest : ∀ bytes stored, stores bytes stored → sha256Hex stored = sha256Hex bytes →
      stored = bytes) :
    (runDocuments settings (.listed paths) tool cancelled started).Ensures
      (Memory.mayAnswer stores) (fun _ => True)
      (fun outcome after => ∀ report, outcome.report = .ok report → report.exitCode = 0 →
        ∀ p ∈ Path.keepLast paths, after.HoldsSound (Path.join settings.root p) ∧
          m.get? (Path.join settings.root p) ≠ some ByteArray.empty) m := by
  rw [runDocuments_listed, Script.ensures_bind]
  refine (ensures_processDocuments hdigest cancelled _).mono ?_
  intro processed after h
  simp only [Script.request, Script.ask_bind, Script.done_bind, Script.ensures_ask]
  rintro ended _ ⟨⟩
  refine ⟨trivial, ?_⟩
  rintro report ⟨⟩ hexit p hp
  obtain ⟨hsound, hnonempty, _⟩ := h (RunReport.exitCode_ofFiles_eq_zero_iff.mp hexit)
  have hmem : p ∈ (Path.keepLast paths).mergeSort Path.atOrBefore := List.mem_mergeSort.mpr hp
  exact ⟨hsound p hmem, hnonempty p hmem⟩

/-- Taking the lock puts an empty file at its path. -/
theorem ensures_acquire {root : Path} :
    (RunLock.acquire root).Ensures (Memory.mayAnswer stores) (fun _ => True)
      (fun answer after => answer = .ok () → after = m.put (RunLock.path root) ByteArray.empty)
      m := by
  simp only [RunLock.acquire, Script.request, Script.ask_bind, Script.done_bind,
    Script.ensures_ask]
  intro claimed after hclaim
  have hanswer : (claimed, after) = Memory.answer (.claim (RunLock.path root)) m := hclaim
  refine ⟨trivial, ?_⟩
  cases hget : m.get? (RunLock.path root) with
  | some bytes =>
      simp only [Memory.answer, hget, Prod.mk.injEq] at hanswer
      obtain ⟨rfl, rfl⟩ := hanswer
      exact fun h => by cases h
  | none =>
      simp only [Memory.answer, hget, Prod.mk.injEq] at hanswer
      obtain ⟨rfl, rfl⟩ := hanswer
      exact fun _ => rfl

/-- The run keeps this under its lock, because no document without errors is the lock file. -/
theorem ensures_run {tool : ToolInfo} {cancelled : Bool} {paths : List Path}
    (hdigest : ∀ bytes stored, stores bytes stored → sha256Hex stored = sha256Hex bytes →
      stored = bytes) :
    (run settings (.listed paths) tool cancelled).Ensures (Memory.mayAnswer stores)
      (fun _ => True)
      (fun outcome after => ∀ report, outcome.report = .ok report → report.exitCode = 0 →
        ∀ p ∈ Path.keepLast paths, after.HoldsSound (Path.join settings.root p)) m := by
  rw [run]
  simp only [Script.request, Script.ask_bind, Script.done_bind, Script.ensures_ask]
  rintro started _ ⟨⟩
  refine ⟨trivial, ?_⟩
  split
  next =>
    rw [Script.ensures_bind]
    refine ensures_acquire.mono ?_
    intro answer locked hlocked
    cases answer with
    | error why => exact fun report h => by cases h
    | ok value =>
        obtain rfl := hlocked rfl
        rw [Script.ensures_bind]
        refine (ensures_runDocuments hdigest).mono ?_
        intro outcome after h
        simp only [RunLock.release, Script.request, Script.ask_bind, Script.done_bind,
          Script.ensures_ask]
        rintro released _ ⟨⟩
        refine ⟨trivial, ?_⟩
        intro report hreport hexit p hp
        obtain ⟨⟨bytes, t, hbytes, ht, hfree⟩, hnonempty⟩ := h report hreport hexit p hp
        have hne : Path.join settings.root p ≠ RunLock.path settings.root := by
          intro heq
          rw [heq, Memory.get?_put_self] at hnonempty
          exact hnonempty rfl
        refine ⟨bytes, t, ?_, ht, hfree⟩
        rw [Memory.get?_erase_of_ne hne, hbytes]
  next =>
    refine (ensures_runDocuments hdigest).mono ?_
    intro outcome after h
    exact fun report hreport hexit p hp => (h report hreport hexit p hp).1

end Documents

/-- A run with exit code zero leaves every listed document without errors on the store, even
when any call fails and any write stores other bytes than it was given, as long as reads are
true and the digest tells apart the contents that the run has to do with. Of several spellings
of one path the last in the list counts. -/
theorem run_holdsSound_of_exitCode_eq_zero (m : Memory) (paths : List Path)
    (settings : RunSettings) (tool : ToolInfo) (cancelled : Bool) (faults : List Fault)
    (hfaults : ∀ f ∈ faults, f.ReadsTruly)
    (hdigest : Set.InjOn sha256Hex (Memory.contentsOf (Memory.host.faulty faults)
      (run settings (.listed paths) tool cancelled) ⟨m, []⟩))
    (outcome : RunOutcome) (after : Logged Memory) (report : RunReport)
    (hrun : (Memory.host.faulty faults).run (run settings (.listed paths) tool cancelled)
      ⟨m, []⟩ = (outcome, after))
    (hreport : outcome.report = .ok report) (hexit : report.exitCode = 0) :
    (∀ p ∈ Path.keepLast paths, after.inner.HoldsSound (Path.join settings.root p)) ∧
      ∀ p ∈ paths, ∃ q ∈ Path.keepLast paths, Path.same p q = true := by
  have hmay := Memory.mayAnswer_faulty_of_injOn hfaults hdigest
  have hensures := (Host.run_of_ensures hmay (ensures_run fun _ _ h => h)).1
  rw [hrun] at hensures
  exact ⟨hensures report hreport hexit, Path.exists_same_mem_keepLast⟩

section Repaired

variable {settings : RunSettings} {path : Path} {t : Text} {faults : List Fault}
  {log : List (StoreOperation × Path)} {contents : Set ByteArray} {m : Memory}

/-- A document whose repair is to be stored is reported with it, when no backup is in its way and
none of the next three calls of an operation goes wrong. The store holds the document, its repair
and what it held before all the while. -/
theorem ensures_processDocument_committed
    (hfaults : ∀ f ∈ faults, log.countP (·.1 == f.operation) + 3 ≤ f.nth)
    (held : m.get? (Path.join settings.root path) = some t.encode)
    (fresh : m.get? (settings.backups.pathFor settings.root path) = none)
    (unsettled : settled? settings path t = none) (hm : m.Within contents)
    (hnew : (repair settings.repairOptions t).content.encode ∈ contents) :
    (processDocument settings path).Ensures (Memory.host.faulty faults).conduct
      (·.inner.Within contents)
      (fun report after =>
        let repaired := (repair settings.repairOptions t).content
        report = (FileReport.ofAnalysis path t (analyze t)).withOutcome
            (repair settings.repairOptions t)
            (.ok (.committed (sha256Hex repaired.encode) (analyze repaired))) ∧
          after.inner = ((m.put (settings.backups.pathFor settings.root path) t.encode).put
            (Path.join settings.root path) repaired.encode).erase
              (settings.backups.pathFor settings.root path)) ⟨m, log⟩ := by
  obtain ⟨-, -, -, -, hfree⟩ := settled?_eq_none_iff.mp unsettled
  have hsoon : ∀ f ∈ faults, log.countP (·.1 == f.operation) + 2 ≤ f.nth :=
    fun f hf => Nat.le_of_succ_le (hfaults f hf)
  have hlater : ∀ f ∈ faults, ((StoreOperation.read, Path.join settings.root path) :: log).countP
      (·.1 == f.operation) + 2 ≤ f.nth := by
    intro f hf
    have hnth := hfaults f hf
    rw [List.countP_cons]
    split <;> omega
  have hread : (readDocument (Path.join settings.root path)).Ensures
      (Memory.host.faulty faults).conduct (·.inner.Within contents)
      (fun answer after => answer = .ok t ∧
        after = ⟨m, (.read, Path.join settings.root path) :: log⟩) ⟨m, log⟩ := by
    simp [-bind_pure_comp, readDocument, Script.request, Script.ensures_ask, Host.conduct,
      Memory.faulty_answer, Request.storeCall?, Memory.answer,
      plannedEffect?_eq_none_of_lt hsoon, held, Text.decode?_encode, hm]
  rw [processDocument_eq, Script.ensures_bind]
  refine hread.mono ?_
  rintro _ _ ⟨rfl, rfl⟩
  simp only [unsettled, Script.ensures_bind]
  refine (ensures_commitRepair_committed hlater held fresh hfree hm hnew).mono ?_
  intro outcome after hafter
  cases outcome with
  | ok outcome =>
      obtain ⟨rfl, hinner⟩ := hafter
      exact ⟨rfl, hinner⟩
  | error why => exact hafter.elim

end Repaired

section Ampersand

variable {faults : List Fault} {contents : Set ByteArray}

/-- The report on the document with the ampersand when its repair is stored. -/
def ampersandReport : FileReport :=
  (FileReport.ofAnalysis "a.xhtml" ampersandDocument (analyze ampersandDocument)).withOutcome
    (repair {} ampersandDocument)
    (.ok (.committed (sha256Hex (repair {} ampersandDocument).content.encode)
      (analyze (repair {} ampersandDocument).content)))

set_option maxRecDepth 10000 in
/-- A run that stores the repair of the ampersand has exit code zero. -/
theorem exitCode_ampersandReport (info : RunInfo) :
    (RunReport.ofFiles ⟨"xhtmlfix", none⟩ info [ampersandReport]).exitCode = 0 := by
  have hclean : analyze (repair {} ampersandDocument).content = [] := by
    decide +kernel
  rw [RunReport.exitCode_ofFiles_eq_zero_iff, ampersandReport, hclean]
  simp [FileReport.withOutcome, FileReport.withRepair, FileReport.passes, FileReport.hasErrors]

/-- A run over the document with the ampersand reports its repair and stores it when only later
calls may go wrong. The store holds the document, its repair and the lock all the while. -/
theorem ensures_run_ampersandDocument (hfaults : ∀ f ∈ faults, 3 ≤ f.nth)
    (hm : ampersandStore.Within contents) (hlock : ByteArray.empty ∈ contents)
    (hnew : (repair {} ampersandDocument).content.encode ∈ contents) :
    (run { repair := true } (.listed ["a.xhtml"]) ⟨"xhtmlfix", none⟩ false).Ensures
      (Memory.host.faulty faults).conduct (·.inner.Within contents)
      (fun outcome after =>
        (∃ info, outcome.report =
          .ok (RunReport.ofFiles ⟨"xhtmlfix", none⟩ info [ampersandReport])) ∧
        after.inner.get? (Path.join "." "a.xhtml") =
          some (repair {} ampersandDocument).content.encode) ⟨ampersandStore, []⟩ := by
  have hpaths : Path.join "." "a.xhtml" ≠ RunLock.path "." ∧
      BackupOptions.pathFor {} "." "a.xhtml" ≠ RunLock.path "." ∧
      Path.join "." "a.xhtml" ≠ BackupOptions.pathFor {} "." "a.xhtml" := by
    decide +kernel
  have hfree : ampersandStore.get? (RunLock.path ".") = none := by
    simp [ampersandStore, Memory.get?, List.lookup_cons, beq_false_of_ne hpaths.1.symm]
  have hlocked := hm.put (RunLock.path ".") hlock
  simp [-bind_pure_comp, run, runDocuments, processDocuments, RunSettings.writesDocuments,
    RunLock.acquire, RunLock.release, DocumentSource.documents, Path.keepLast, Script.request,
    Script.ensures_ask, Host.conduct, Memory.faulty_answer, Request.storeCall?, Memory.answer,
    hfree, hm, hlocked]
  refine (ensures_processDocument_committed (by simpa using hfaults)
    ((Memory.get?_put_of_ne hpaths.1 _ _).trans get?_ampersandStore)
    ((Memory.get?_put_of_ne hpaths.2.1 _ _).trans get?_ampersandStore_backup)
    settled?_ampersandDocument hlocked hnew).mono ?_
  rintro report ⟨_, log⟩ ⟨rfl, rfl⟩
  have hformer : ampersandDocument.encode ∈ contents := hm _ _ get?_ampersandStore
  have hstored := ((hlocked.put (BackupOptions.pathFor {} "." "a.xhtml") hformer).put
    (Path.join "." "a.xhtml") hnew).erase (BackupOptions.pathFor {} "." "a.xhtml")
  refine ⟨hstored, hstored.erase _, ⟨_, rfl⟩, hpaths.1, ?_⟩
  exact (Memory.get?_erase_of_ne hpaths.2.2 _).trans (Memory.get?_put_self _ _ _)

end Ampersand

/-- The ampersand is repaired and stored with exit code zero when the disk is full later on. -/
theorem run_holdsSound_ampersandDocument :
    ∃ outcome after report, (Memory.host.faulty [⟨.copy, 3, { fail := some "disk full" }⟩]).run
        (run { repair := true } (.listed ["a.xhtml"]) ⟨"xhtmlfix", none⟩ false)
        ⟨ampersandStore, []⟩ = (outcome, after) ∧ outcome.report = .ok report ∧
      report.exitCode = 0 ∧
      after.inner.get? (Path.join "." "a.xhtml") =
        some (repair {} ampersandDocument).content.encode ∧
      (∀ p ∈ Path.keepLast ["a.xhtml"], after.inner.HoldsSound (Path.join "." p)) ∧
        ∀ p ∈ ["a.xhtml"], ∃ q ∈ Path.keepLast ["a.xhtml"], Path.same p q = true := by
  let list : List ByteArray := [ByteArray.empty, ampersandDocument.encode,
    (repair {} ampersandDocument).content.encode]
  have hnodup : (list.map sha256Hex).Nodup := by decide +kernel
  have hwithin : ampersandStore.Within {bytes | bytes ∈ list} := by
    have hempty : Memory.Within {bytes | bytes ∈ list} [] := fun _ _ h => by cases h
    exact hempty.put (Path.join "." "a.xhtml") (by simp [list])
  have hlater : ∀ f ∈ ([⟨.copy, 3, { fail := some "disk full" }⟩] : List Fault), 3 ≤ f.nth := by
    simp
  have hensures := ensures_run_ampersandDocument hlater hwithin (by simp [list]) (by simp [list])
  obtain ⟨⟨info, hreport⟩, hstored⟩ := Host.run_of_ensures_conduct hensures
  have hexit := exitCode_ampersandReport info
  refine ⟨_, _, _, rfl, hreport, hexit, hstored, ?_⟩
  refine run_holdsSound_of_exitCode_eq_zero ampersandStore ["a.xhtml"] { repair := true }
    ⟨"xhtmlfix", none⟩ false _ (by simp [Fault.ReadsTruly]) ?_ _ _ _ rfl hreport hexit
  exact Memory.injOn_of_nodup hnodup
    (Memory.contentsOf_subset (by simp) hwithin hensures)

end MarkupRepair
