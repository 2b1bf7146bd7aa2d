import MarkupRepair.Proofs.Run.Document

/-!
# Documents on a store that fails once

When a call of the store fails and says so, the report on a document does not call it changed
unless its repair is stored. The other way round there is an exception: when it is the removal
of the backup that fails, the document has changed and the report calls it an error.
-/

namespace MarkupRepair

/-- Whether a report calls a document an error although its repair is stored, with the document
as it was still in the backup. -/
structure FileReport.RepairUnreported (report : FileReport) (settings : RunSettings)
    (target backup : Path) (t : Text) (after : Memory) : Prop where
  /-- The status is that of a document that could not be processed. -/
  status_eq : report.status = .processingError
  /-- The store holds the repair. -/
  holds : after.get? target = some (repair settings.repairOptions t).content.encode
  /-- The backup holds the document as it was. -/
  backedUp : after.get? backup = some t.encode

section Changed

variable {failing : Request → Prop} {settings : RunSettings} {path : Path} {m after : Memory}
  {report : FileReport} {left : Nat}

/-- With at most one failure a document is only changed when its repair is stored, and that is
reported unless it is the removal of the backup that fails. -/
theorem ProcessingEnd.of_changed
    (h : ProcessingEnd failing settings path m 1 report (after, left))
    (hchanged : after.get? (Path.join settings.root path) ≠
      m.get? (Path.join settings.root path)) :
    ∃ t, m.get? (Path.join settings.root path) = some t.encode ∧
      (report.RepairStored settings (Path.join settings.root path) t after ∨
        failing (.remove (settings.backups.pathFor settings.root path)) ∧
          report.RepairUnreported settings (Path.join settings.root path)
            (settings.backups.pathFor settings.root path) t after) := by
  cases h with
  | noText why none => exact absurd rfl hchanged
  | unread why => exact absurd rfl hchanged
  | settled held settled => exact absurd rfl hchanged
  | @ended _ t _ _ held unsettled ending =>
      refine ⟨t, held, ?_⟩
      cases ending with
      | stale busy => exact absurd rfl hchanged
      | unread why => exact absurd rfl hchanged
      | undone notStored same => exact absurd (same _) hchanged
      | stored fresh => exact Or.inl (FileReport.repairStored_of_fresh unsettled held fresh)
      | uncleared fresh failed why =>
          have hne := Memory.ne_of_get?_eq_none held fresh
          refine Or.inr ⟨failed, rfl, ?_, ?_⟩
          · rw [Memory.get?_put_self]
          · rw [Memory.get?_put_of_ne hne.symm, Memory.get?_put_self]

end Changed

/-- Without faults, a repair that is to be stored is stored when no backup is in its way. -/
theorem run_processDocument_repairStored {settings : RunSettings} {path : Path} {m : Memory}
    {t : Text} {report : FileReport} {after : Logged Memory}
    (hrun : (Memory.host.faulty []).run (processDocument settings path) ⟨m, []⟩ = (report, after))
    (held : m.get? (Path.join settings.root path) = some t.encode)
    (fresh : m.get? (settings.backups.pathFor settings.root path) = none)
    (unsettled : settled? settings path t = none) :
    report.RepairStored settings (Path.join settings.root path) t after.inner := by
  have hensures : (processDocument settings path).Ensures
      (Memory.mayFailWithin fun _ => True) (fun _ => True)
      (ProcessingEnd _ settings path m 0) (m, 0) :=
    ensures_processDocument_within (Nat.zero_le 1)
  obtain ⟨left, hend⟩ := Memory.run_of_ensures_within (s := ⟨m, []⟩) (List.forall_mem_nil _)
    (fun _ _ _ => trivial) (Memory.countP_fails_le _ _) hensures
  rw [hrun] at hend
  exact hend.repairStored held fresh unsettled

/-- When the backup cannot be removed, a document whose repair is stored is reported as an
error. -/
theorem ensures_processDocument_uncleared {settings : RunSettings} {path : Path} {m : Memory}
    {t : Text} (message : String)
    (held : m.get? (Path.join settings.root path) = some t.encode)
    (fresh : m.get? (settings.backups.pathFor settings.root path) = none)
    (unsettled : settled? settings path t = none) :
    (processDocument settings path).Ensures
      (Memory.host.faulty (removalFails message)).conduct (fun _ => True)
      (fun report after => report.RepairUnreported settings (Path.join settings.root path)
        (settings.backups.pathFor settings.root path) t after.inner) ⟨m, []⟩ := by
  have hne := Memory.ne_of_get?_eq_none held fresh
  obtain ⟨-, -, -, -, hfree⟩ := settled?_eq_none_iff.mp unsettled
  have hread : (readDocument (Path.join settings.root path)).Ensures
      (Memory.host.faulty (removalFails message)).conduct (fun _ => True)
      (fun answer after => answer = .ok t ∧
        after = ⟨m, [(.read, Path.join settings.root path)]⟩) ⟨m, []⟩ := by
    simp [-bind_pure_comp, readDocument, Script.request, Script.ensures_ask, Host.conduct,
      Memory.faulty_answer, Request.storeCall?, Memory.answer, plannedEffect?, removalFails, held,
      Text.decode?_encode]
  rw [processDocument_eq, Script.ensures_bind]
  refine hread.mono ?_
  rintro _ _ ⟨rfl, rfl⟩
  simp only [unsettled, Script.ensures_bind]
  refine (ensures_commitRepair_uncleared message held fresh hfree (by simp)).mono ?_
  intro outcome after hafter
  cases outcome with
  | ok outcome => exact hafter.elim
  | error why =>
      obtain ⟨inner, log⟩ := after
      obtain rfl : inner = _ := hafter
      refine ⟨rfl, ?_, ?_⟩
      · rw [Memory.get?_put_self]
      · rw [Memory.get?_put_of_ne hne.symm, Memory.get?_put_self]

/-- A document with nothing wrong but an ampersand on its own. -/
def ampersandDocument : Text :=
  canonicalProlog ++ '\n' :: (canonicalDoctype ++
    "\n<html xmlns=\"http://www.w3.org/1999/xhtml\">&</html>".toList)

section Ampersand

set_option maxRecDepth 10000 in
/-- A repairing run is to store the repair of the ampersand. -/
theorem settled?_ampersandDocument :
    settled? { repair := true } "a.xhtml" ampersandDocument = none := by
  decide +kernel

set_option maxRecDepth 10000 in
/-- The repair of the ampersand is another text. -/
theorem repair_ampersandDocument_ne :
    (repair {} ampersandDocument).content ≠ ampersandDocument := by
  decide +kernel

/-- A store with nothing but that document. -/
def ampersandStore : Memory := [(Path.join "." "a.xhtml", ampersandDocument.encode)]

theorem get?_ampersandStore :
    ampersandStore.get? (Path.join "." "a.xhtml") = some ampersandDocument.encode := by
  simp [ampersandStore, Memory.get?]

theorem get?_ampersandStore_backup :
    ampersandStore.get? (BackupOptions.pathFor {} "." "a.xhtml") = none := by
  have hne : BackupOptions.pathFor {} "." "a.xhtml" ≠ Path.join "." "a.xhtml" := by
    decide +kernel
  simp [ampersandStore, Memory.get?, List.lookup_cons, beq_false_of_ne hne]

/-- A store that holds the repair of the ampersand has changed. -/
theorem get?_ne_of_repaired {after : Memory}
    (holds : after.get? (Path.join "." "a.xhtml") =
      some (repair {} ampersandDocument).content.encode) :
    after.get? (Path.join "." "a.xhtml") ≠ ampersandStore.get? (Path.join "." "a.xhtml") := by
  rw [holds, get?_ampersandStore]
  intro hequal
  exact repair_ampersandDocument_ne (Text.encode_injective (Option.some.inj hequal))

/-- When its backup cannot be removed, the repair of the ampersand is stored and not reported. -/
theorem repairUnreported_ampersandDocument {report : FileReport} {after : Logged Memory}
    (hrun : (Memory.host.faulty (removalFails "denied")).run
      (processDocument { repair := true } "a.xhtml") ⟨ampersandStore, []⟩ = (report, after)) :
    report.RepairUnreported { repair := true } (Path.join "." "a.xhtml")
      (BackupOptions.pathFor {} "." "a.xhtml") ampersandDocument after.inner := by
  have h := Host.run_of_ensures_conduct (ensures_processDocument_uncleared "denied"
    get?_ampersandStore get?_ampersandStore_backup settled?_ampersandDocument)
  rwa [hrun] at h

end Ampersand

/-- When at most one call of the store fails, and says so, a document that has changed holds its
repair, and it is reported as repaired with the digest and the issues of what it holds. There is
one exception: when the failing call is the removal of the backup, the document is reported as
an error. -/
theorem processDocument_reported_of_changed (settings : RunSettings) (path : Path) (m : Memory)
    (faults : List Fault) (hfaults : ∀ f ∈ faults, f.IsLoud)
    (hcount : ((Memory.host.faulty faults).calls (processDocument settings path)
      ⟨m, []⟩).countP (·.fails faults) ≤ 1)
    (report : FileReport) (after : Logged Memory)
    (hrun : (Memory.host.faulty faults).run (processDocument settings path) ⟨m, []⟩ =
      (report, after))
    (hchanged : after.inner.get? (Path.join settings.root path) ≠
      m.get? (Path.join settings.root path)) :
    ∃ t, m.get? (Path.join settings.root path) = some t.encode ∧
      (report.RepairStored settings (Path.join settings.root path) t after.inner ∨
        (∃ c ∈ (Memory.host.faulty faults).calls (processDocument settings path) ⟨m, []⟩,
          c.request = .remove (settings.backups.pathFor settings.root path) ∧
            c.fails faults = true) ∧
          report.RepairUnreported settings (Path.join settings.root path)
            (settings.backups.pathFor settings.root path) t after.inner) := by
  have hensures : (processDocument settings path).Ensures
      (Memory.mayFailWithin fun r => ∃ c ∈ (Memory.host.faulty faults).calls
        (processDocument settings path) ⟨m, []⟩, c.request = r ∧ c.fails faults = true)
      (fun _ => True) (ProcessingEnd _ settings path m 1) (m, 1) :=
    ensures_processDocument_within (Nat.le_refl 1)
  obtain ⟨left, hend⟩ := Memory.run_of_ensures_within hfaults
    (fun c hc hfails => ⟨c, hc, rfl, hfails⟩) hcount hensures
  rw [hrun] at hend
  exact hend.of_changed hchanged

/-- The exception is real: one removal fails, the document has changed, and its status does not
say so. -/
theorem processDocument_unreported_ampersand :
    (∀ f ∈ removalFails "denied", f.IsLoud) ∧
      ((Memory.host.faulty (removalFails "denied")).calls
        (processDocument { repair := true } "a.xhtml") ⟨ampersandStore, []⟩).countP
          (·.fails (removalFails "denied")) ≤ 1 ∧
      ∃ report after, (Memory.host.faulty (removalFails "denied")).run
          (processDocument { repair := true } "a.xhtml") ⟨ampersandStore, []⟩ = (report, after) ∧
        after.inner.get? (Path.join "." "a.xhtml") ≠
          ampersandStore.get? (Path.join "." "a.xhtml") ∧
        report.status.isCommitted = false := by
  refine ⟨isLoud_removalFails _, Memory.countP_fails_le _ _, ?_⟩
  cases hrun : (Memory.host.faulty (removalFails "denied")).run
      (processDocument { repair := true } "a.xhtml") ⟨ampersandStore, []⟩ with
  | mk report after =>
      have hunreported := repairUnreported_ampersandDocument hrun
      refine ⟨report, after, rfl, get?_ne_of_repaired hunreported.holds, ?_⟩
      rw [hunreported.status_eq]
      rfl

/-- Without faults the repair of the ampersand is stored and reported; when the first removal is
to fail, it is the one of the backup. -/
theorem processDocument_reported_of_changed_ampersand :
    (∃ report after, (Memory.host.faulty []).run (processDocument { repair := true } "a.xhtml")
        ⟨ampersandStore, []⟩ = (report, after) ∧
      report.RepairStored { repair := true } (Path.join "." "a.xhtml") ampersandDocument
        after.inner) ∧
    ∃ c ∈ (Memory.host.faulty (removalFails "denied")).calls
        (processDocument { repair := true } "a.xhtml") ⟨ampersandStore, []⟩,
      c.request = .remove (BackupOptions.pathFor {} "." "a.xhtml") ∧
        c.fails (removalFails "denied") = true := by
  constructor
  · cases hrun : (Memory.host.faulty []).run (processDocument { repair := true } "a.xhtml")
        ⟨ampersandStore, []⟩ with
    | mk report after =>
        have hholds := (run_processDocument_repairStored hrun get?_ampersandStore
          get?_ampersandStore_backup settled?_ampersandDocument).holds
        obtain ⟨t, ht, hstored | ⟨⟨c, hc, -, hfails⟩, -⟩⟩ := processDocument_reported_of_changed
          { repair := true } "a.xhtml" ampersandStore [] (List.forall_mem_nil _)
          (Nat.le_succ_of_le (Memory.countP_fails_le _ _)) report after hrun
          (get?_ne_of_repaired hholds)
        · obtain rfl := Text.encode_injective (Option.some.inj (ht.symm.trans get?_ampersandStore))
          exact ⟨report, after, rfl, hstored⟩
        · rw [Call.fails_nil] at hfails
          cases hfails
  · cases hrun : (Memory.host.faulty (removalFails "denied")).run
        (processDocument { repair := true } "a.xhtml") ⟨ampersandStore, []⟩ with
    | mk report after =>
        have hunreported := repairUnreported_ampersandDocument hrun
        obtain ⟨t, -, hstored | ⟨hfails, -⟩⟩ := processDocument_reported_of_changed
          { repair := true } "a.xhtml" ampersandStore _ (isLoud_removalFails _)
          (Memory.countP_fails_le _ _) report after hrun (get?_ne_of_repaired hunreported.holds)
        · have hcommitted := hstored.committed
          rw [hunreported.status_eq] at hcommitted
          cases hcommitted
        · exact hfails

end MarkupRepair
