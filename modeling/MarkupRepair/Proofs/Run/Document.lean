import Mathlib.Logic.Basic
import MarkupRepair.Proofs.Storage.Ending
import MarkupRepair.Run.Document

/-!
# What is reported on a document and what the store then holds

Processing a document comes to an end before anything is stored, or it stores a repair. The ways
in which it may end are listed for a store with at most one failure left. On a store that never
fails the report says exactly what has become of the document.
-/

namespace MarkupRepair

/-- Texts with the same bytes are the same. -/
theorem Text.encode_injective : Function.Injective Text.encode := by
  intro t t' h
  rw [← Option.some_inj, ← Text.decode?_encode t, h, Text.decode?_encode]

/-- The report on a document that nothing is stored for, and nothing when its repair is to be
stored. -/
def settled? (settings : RunSettings) (path : Path) (t : Text) : Option FileReport :=
  let report := FileReport.ofAnalysis path t (analyze t)
  let result := repair settings.repairOptions t
  if report.issues.isEmpty || !settings.repair then some report
  else if !result.changed then some report
  else
    match verify result.content with
    | .error why => some { report with status := .rejected, note := some why.message }
    | .ok _ => if settings.dryRun then some (report.withPatch t result) else none

/-- A document is read, then it is settled or its repair is stored. -/
theorem processDocument_eq (settings : RunSettings) (path : Path) :
    processDocument settings path = (do
      match ← readDocument (Path.join settings.root path) with
      | .error why => return .ofError path why
      | .ok t =>
          match settled? settings path t with
          | some report => return report
          | none =>
              let result := repair settings.repairOptions t
              let outcome ← (commitRepair (Path.join settings.root path)
                (settings.backups.pathFor settings.root path) t result.content).run
              return (FileReport.ofAnalysis path t (analyze t)).withOutcome result outcome) := by
  unfold processDocument
  congr 1
  funext answer
  cases answer with
  | error why => rfl
  | ok t =>
      dsimp only
      unfold settled? repairDocument
      dsimp only
      split
      next => rfl
      next =>
        split
        next => rfl
        next =>
          cases verify (repair settings.repairOptions t).content with
          | error why => rfl
          | ok issues => cases settings.dryRun <;> rfl

section Settled

variable {settings : RunSettings} {path : Path} {t : Text}

/-- A document that was analysed and left alone is valid or unresolved. -/
theorem FileReport.status_ofAnalysis (path : Path) (t : Text) (issues : List Issue) :
    (FileReport.ofAnalysis path t issues).status = .valid ∨
      (FileReport.ofAnalysis path t issues).status = .unresolved := by
  unfold FileReport.ofAnalysis
  cases issues.isEmpty with
  | true => exact Or.inl rfl
  | false => exact Or.inr rfl

/-- A document that nothing is stored for is left alone, or its repair is rejected, or the repair
is only tried out. -/
theorem settled?_cases {report : FileReport} (h : settled? settings path t = some report) :
    report = .ofAnalysis path t (analyze t) ∨
      (∃ why, report = { FileReport.ofAnalysis path t (analyze t) with
        status := .rejected, note := some why }) ∨
      report = (FileReport.ofAnalysis path t (analyze t)).withPatch t
        (repair settings.repairOptions t) := by
  unfold settled? at h
  dsimp only at h
  split at h
  next => exact Or.inl (Option.some.inj h).symm
  next =>
    split at h
    next => exact Or.inl (Option.some.inj h).symm
    next =>
      split at h
      next why _ => exact Or.inr (Or.inl ⟨why.message, (Option.some.inj h).symm⟩)
      next =>
        split at h
        next => exact Or.inr (Or.inr (Option.some.inj h).symm)
        next => cases h

/-- A document that nothing is stored for is not reported as repaired, and the issues that
remain are its own unless its repair is only tried out. -/
theorem of_settled?_eq_some {report : FileReport} (h : settled? settings path t = some report) :
    report.status.isCommitted = false ∧
      (report.status ≠ .wouldRepair → report.issuesRemaining = analyze t) := by
  obtain rfl | ⟨why, rfl⟩ | rfl := settled?_cases h
  · refine ⟨?_, fun _ => rfl⟩
    obtain hstatus | hstatus := FileReport.status_ofAnalysis path t (analyze t) <;>
      rw [hstatus] <;> rfl
  · exact ⟨rfl, fun _ => rfl⟩
  · exact ⟨rfl, fun hstatus => absurd rfl hstatus⟩

/-- A repair is to be stored exactly when there are issues, the run repairs and stores, and the
repair changes something and is free of fatal issues. -/
theorem settled?_eq_none_iff : settled? settings path t = none ↔
    analyze t ≠ [] ∧ settings.repair = true ∧ settings.dryRun = false ∧
      (repair settings.repairOptions t).changed = true ∧
      FreeOfFatal (repair settings.repairOptions t).content := by
  have hissues : (FileReport.ofAnalysis path t (analyze t)).issues = analyze t := rfl
  unfold settled?
  dsimp only
  rw [hissues]
  cases hrepairs : (analyze t).isEmpty || !settings.repair with
  | true =>
      simp only [if_true, reduceCtorEq, false_iff]
      rintro ⟨hne, hrepair, -⟩
      simp [hne, hrepair] at hrepairs
  | false =>
      rw [Bool.or_eq_false_iff, List.isEmpty_eq_false_iff, Bool.not_eq_false'] at hrepairs
      cases hchanged : (repair settings.repairOptions t).changed with
      | false => simp
      | true =>
          cases hverify : verify (repair settings.repairOptions t).content with
          | error why =>
              have hfatal : ¬ FreeOfFatal (repair settings.repairOptions t).content := by
                intro hfree
                rw [verify_eq_ok_iff.mpr ⟨hfree, rfl⟩] at hverify
                cases hverify
              simp [hfatal]
          | ok issues =>
              have hfree := (verify_eq_ok_iff.mp hverify).1
              cases settings.dryRun <;> simp [hrepairs, hfree]

end Settled

/-- How processing a document may end on a store with at most one failure left: the number of
failures left at the beginning, the report, and the store at the end with the number of
failures then left. -/
inductive ProcessingEnd (failing : Request → Prop) (settings : RunSettings) (path : Path)
    (m : Memory) : Nat → FileReport → Memory × Nat → Prop where
  /-- There is no document, or it is not a text. -/
  | noText {n : Nat} (why : String)
      (none : (m.get? (Path.join settings.root path)).bind Text.decode? = none) :
      ProcessingEnd failing settings path m n (.ofError path why) (m, n)
  /-- The document cannot be read. -/
  | unread (why : String) : ProcessingEnd failing settings path m 1 (.ofError path why) (m, 0)
  /-- Nothing is stored for the document. -/
  | settled {n : Nat} {t : Text} {report : FileReport}
      (held : m.get? (Path.join settings.root path) = some t.encode)
      (settled : settled? settings path t = some report) :
      ProcessingEnd failing settings path m n report (m, n)
  /-- A repair is to be stored. -/
  | ended {n : Nat} {t : Text} {outcome : Except EditError CommitOutcome} {after : Memory × Nat}
      (held : m.get? (Path.join settings.root path) = some t.encode)
      (unsettled : settled? settings path t = none)
      (ending : StoringEnd failing (Path.join settings.root path)
        (settings.backups.pathFor settings.root path) t (repair settings.repairOptions t).content
        m n outcome after) :
      ProcessingEnd failing settings path m n
        ((FileReport.ofAnalysis path t (analyze t)).withOutcome
          (repair settings.repairOptions t) outcome) after

/-- On a store with at most one failure left, reading a document changes nothing and gives its
text, unless there is none or reading fails. -/
theorem ensures_readDocument_within {failing : Request → Prop} {path : Path} {m : Memory} {n : Nat}
    {wanted : Except String Text → Memory × Nat → Prop} (hn : n ≤ 1)
    (htext : ∀ t, m.get? path = some t.encode → wanted (.ok t) (m, n))
    (hnone : ∀ why, (m.get? path).bind Text.decode? = none → wanted (.error why) (m, n))
    (hfailed : ∀ why, n = 1 → wanted (.error why) (m, 0)) :
    (readDocument path).Ensures (Memory.mayFailWithin failing) (fun _ => True) wanted (m, n) := by
  simp only [readDocument, Script.request, Script.ask_bind, Script.done_bind,
    Memory.ensures_ask_within]
  constructor
  · cases hget : m.get? path with
    | none =>
        simp only [Memory.answer, hget, Script.pure_eq_done, Script.ensures_done]
        exact hnone _ (by rw [hget]; rfl)
    | some bytes =>
        cases ht : Text.decode? bytes with
        | none =>
            simp only [Memory.answer, hget, ht, Script.pure_eq_done, Script.ensures_done]
            exact hnone _ (by rw [hget]; exact ht)
        | some t =>
            simp only [Memory.answer, hget, ht, Script.pure_eq_done, Script.ensures_done]
            exact htext t (by rw [hget, Text.encode_of_decode? ht])
  · intro answer after left _ hleft hfails
    obtain ⟨rfl, rfl⟩ : n = 1 ∧ left = 0 := by omega
    cases answer with
    | ok bytes => exact hfails.elim
    | error why =>
        obtain rfl : after = m := hfails
        simp only [Script.pure_eq_done, Script.ensures_done]
        exact hfailed _ rfl

/-- On a store with at most one failure left, processing a document ends in one of these ways. -/
theorem ensures_processDocument_within {failing : Request → Prop} {settings : RunSettings}
    {path : Path} {m : Memory} {n : Nat} (hn : n ≤ 1) :
    (processDocument settings path).Ensures (Memory.mayFailWithin failing) (fun _ => True)
      (ProcessingEnd failing settings path m n) (m, n) := by
  rw [processDocument_eq, Script.ensures_bind]
  refine ensures_readDocument_within hn ?_ (fun why hnone => .noText why hnone) ?_
  · intro t ht
    dsimp only
    cases hsettled : settled? settings path t with
    | some report => exact .settled ht hsettled
    | none =>
        obtain ⟨-, -, -, -, hfree⟩ := settled?_eq_none_iff.mp hsettled
        rw [Script.ensures_bind]
        refine (ensures_commitRepair_within hn ht hfree).mono ?_
        intro outcome after hend
        exact .ended ht hsettled hend
  · rintro why rfl
    exact .unread why

namespace FileReport

/-- Whether a report on a document says that its repair is stored, and the store and the report
agree on it. -/
structure RepairStored (report : FileReport) (settings : RunSettings) (target : Path) (t : Text)
    (after : Memory) : Prop where
  /-- The run repairs documents. -/
  repairs : settings.repair = true
  /-- It does not only try repairs out. -/
  stores : settings.dryRun = false
  /-- The status says that the document was changed. -/
  committed : report.status.isCommitted = true
  /-- The store holds the repair. -/
  holds : after.get? target = some (repair settings.repairOptions t).content.encode
  /-- No fatal issue remains in it. -/
  freeOfFatal : FreeOfFatal (repair settings.repairOptions t).content
  /-- It counts as wholly repaired exactly when no error remains either. -/
  repaired_iff : report.status = .repaired ↔
    ∀ i ∈ analyze (repair settings.repairOptions t).content, i.severity ≠ .error
  /-- The digest is the one of what the store holds. -/
  digest : report.sha256After = some (sha256Hex (repair settings.repairOptions t).content.encode)
  /-- The issues that remain are those of what the store holds. -/
  remaining : report.issuesRemaining = analyze (repair settings.repairOptions t).content

/-- Whether a report on a document says that it was not changed, and the store and the report
agree on it. -/
structure LeftAlone (report : FileReport) (target : Path) (t : Text) (after : Memory) : Prop where
  /-- The status does not say that the document was changed. -/
  notCommitted : report.status.isCommitted = false
  /-- The store holds the document as it was. -/
  holds : after.get? target = some t.encode
  /-- The issues that remain are its own, unless they are those that a repair would leave. -/
  remaining : report.status ≠ .wouldRepair → report.issuesRemaining = analyze t

/-- A report does not say both that the repair is stored and that the document was not changed. -/
theorem RepairStored.not_leftAlone {report : FileReport} {settings : RunSettings} {target : Path}
    {t : Text} {after : Memory} (h : report.RepairStored settings target t after) :
    ¬ report.LeftAlone target t after := by
  intro hleft
  exact absurd (h.committed.symm.trans hleft.notCommitted) (by decide)

section Outcomes

variable {path target : Path} {t : Text} {settings : RunSettings} {after : Memory}

/-- The report on a repair that was stored agrees with a store that holds it. -/
theorem repairStored_withOutcome (hsettled : settled? settings path t = none)
    (hholds : after.get? target = some (repair settings.repairOptions t).content.encode) :
    ((ofAnalysis path t (analyze t)).withOutcome (repair settings.repairOptions t)
      (.ok (.committed (sha256Hex (repair settings.repairOptions t).content.encode)
        (analyze (repair settings.repairOptions t).content)))).RepairStored
      settings target t after := by
  obtain ⟨-, hrepairs, hdry, -, hfree⟩ := settled?_eq_none_iff.mp hsettled
  have herrors : (analyze (repair settings.repairOptions t).content).any (·.severity.isError) =
      false ↔ ∀ i ∈ analyze (repair settings.repairOptions t).content, i.severity ≠ .error := by
    rw [List.any_eq_false]
    constructor
    · intro h i hi herror
      exact h i hi (by rw [herror]; rfl)
    · intro h i hi
      have hfatal := hfree i hi
      cases hs : i.severity with
      | warning => decide
      | error => exact absurd hs (h i hi)
      | fatal => simp [Issue.isFatal, hs] at hfatal
  refine ⟨hrepairs, hdry, ?_, hholds, hfree, ?_, rfl, rfl⟩
  · unfold withOutcome withRepair
    dsimp only
    split <;> rfl
  · rw [← herrors]
    unfold withOutcome withRepair
    dsimp only
    cases (analyze (repair settings.repairOptions t).content).any (·.severity.isError) <;> simp

/-- A repair that is stored over a backup is still there when the backup is removed. -/
theorem repairStored_of_fresh {m : Memory} {backup : Path}
    (hsettled : settled? settings path t = none) (held : m.get? target = some t.encode)
    (fresh : m.get? backup = none) :
    ((ofAnalysis path t (analyze t)).withOutcome (repair settings.repairOptions t)
      (.ok (.committed (sha256Hex (repair settings.repairOptions t).content.encode)
        (analyze (repair settings.repairOptions t).content)))).RepairStored settings target t
      (((m.put backup t.encode).put target
        (repair settings.repairOptions t).content.encode).erase backup) := by
  refine repairStored_withOutcome hsettled ?_
  rw [get?_of_stored (Memory.ne_of_get?_eq_none held fresh) fresh, if_pos rfl]

/-- A report on a repair that was not stored does not say that the document was changed, and
leaves it its issues. -/
theorem leftAlone_withOutcome {result : RepairResult} {outcome : Except EditError CommitOutcome}
    (houtcome : ∀ digest issues, outcome ≠ .ok (.committed digest issues))
    (hholds : after.get? target = some t.encode) :
    ((ofAnalysis path t (analyze t)).withOutcome result outcome).LeftAlone target t after := by
  cases outcome with
  | error why => exact ⟨rfl, hholds, fun _ => rfl⟩
  | ok outcome =>
      cases outcome with
      | committed digest issues => exact absurd rfl (houtcome digest issues)
      | restored reason => exact ⟨rfl, hholds, fun _ => rfl⟩

end Outcomes

end FileReport

section Endings

variable {failing : Request → Prop} {settings : RunSettings} {path : Path} {m after : Memory}
  {report : FileReport} {left : Nat}

/-- Only a document that is a text is not reported as an error because of what it holds. -/
theorem ProcessingEnd.of_noText (h : ProcessingEnd failing settings path m 0 report (after, left))
    (hnone : (m.get? (Path.join settings.root path)).bind Text.decode? = none) :
    report.status = .processingError ∧ after = m := by
  have habsurd : ∀ t : Text, m.get? (Path.join settings.root path) ≠ some t.encode := by
    intro t ht
    rw [ht, Option.bind_some, Text.decode?_encode] at hnone
    cases hnone
  cases h with
  | noText why none => exact ⟨rfl, rfl⟩
  | settled held settled => exact absurd held (habsurd _)
  | ended held unsettled ending => exact absurd held (habsurd _)

/-- Without a failure, processing a text ends with its repair stored, or with the store as it
was and a report that says so. -/
theorem ProcessingEnd.of_text (h : ProcessingEnd failing settings path m 0 report (after, left))
    {t : Text} (ht : m.get? (Path.join settings.root path) = some t.encode) :
    (report.RepairStored settings (Path.join settings.root path) t after ∧
        ∀ other, other ≠ Path.join settings.root path → after.get? other = m.get? other) ∨
      report.LeftAlone (Path.join settings.root path) t after ∧ after = m := by
  have hsame : ∀ {t' : Text}, m.get? (Path.join settings.root path) = some t'.encode → t' = t :=
    fun ht' => Text.encode_injective (Option.some.inj (ht'.symm.trans ht))
  cases h with
  | noText why none =>
      rw [ht, Option.bind_some, Text.decode?_encode] at none
      cases none
  | settled held settled =>
      obtain rfl := hsame held
      obtain ⟨hstatus, hremaining⟩ := of_settled?_eq_some settled
      exact Or.inr ⟨⟨hstatus, held, hremaining⟩, rfl⟩
  | ended held unsettled ending =>
      obtain rfl := hsame held
      cases ending with
      | stale busy =>
          refine Or.inr ⟨FileReport.leftAlone_withOutcome ?_ held, rfl⟩
          rintro digest issues ⟨⟩
      | stored fresh =>
          refine Or.inl ⟨FileReport.repairStored_of_fresh unsettled held fresh, ?_⟩
          intro other hother
          rw [get?_of_stored (Memory.ne_of_get?_eq_none held fresh) fresh, if_neg hother]

/-- Without a failure, a repair that is to be stored is stored when no backup is in its way. -/
theorem ProcessingEnd.repairStored {t : Text}
    (h : ProcessingEnd failing settings path m 0 report (after, left))
    (held : m.get? (Path.join settings.root path) = some t.encode)
    (fresh : m.get? (settings.backups.pathFor settings.root path) = none)
    (unsettled : settled? settings path t = none) :
    report.RepairStored settings (Path.join settings.root path) t after := by
  have hsame : ∀ {t' : Text}, m.get? (Path.join settings.root path) = some t'.encode → t' = t :=
    fun ht' => Text.encode_injective (Option.some.inj (ht'.symm.trans held))
  cases h with
  | noText why none =>
      rw [held, Option.bind_some, Text.decode?_encode] at none
      cases none
  | settled held' settled =>
      obtain rfl := hsame held'
      rw [unsettled] at settled
      cases settled
  | ended held' unsettled ending =>
      obtain rfl := hsame held'
      cases ending with
      | stale busy => exact absurd fresh busy
      | stored => exact FileReport.repairStored_of_fresh unsettled held fresh

end Endings

/-- On a store that never fails, processing a document changes the store only as it reports. No
path but the document's own is touched. Without a text there, the status is an error and the
store is unchanged. Otherwise either the report says that the repair is stored and it is, or the
report says that nothing was and nothing has been. -/
theorem processDocument_reported (settings : RunSettings) (path : Path) (m : Memory) :
    let target := Path.join settings.root path
    let run := Memory.host.run (processDocument settings path) m
    (∀ other, other ≠ target → run.2.get? other = m.get? other) ∧
      ((m.get? target).bind Text.decode? = none →
        run.1.status = .processingError ∧ run.2 = m) ∧
      ∀ t, (m.get? target).bind Text.decode? = some t →
        Xor (run.1.RepairStored settings target t run.2) (run.1.LeftAlone target t run.2) := by
  intro target run
  have hend : ProcessingEnd (fun _ => False) settings path m 0 run.1 (run.2, 0) :=
    Memory.ensures_within_zero_iff.mp (ensures_processDocument_within (Nat.zero_le 1))
  cases htext : (m.get? target).bind Text.decode? with
  | none =>
      obtain ⟨hstatus, hafter⟩ := hend.of_noText htext
      refine ⟨fun other _ => by rw [hafter], fun _ => ⟨hstatus, hafter⟩, ?_⟩
      rintro t ⟨⟩
  | some t =>
      obtain ⟨bytes, hbytes, hdecode⟩ := Option.bind_eq_some_iff.mp htext
      obtain rfl := Text.encode_of_decode? hdecode
      refine ⟨?_, by simp, ?_⟩
      · intro other hother
        obtain ⟨-, hafter⟩ | ⟨-, hafter⟩ := hend.of_text hbytes
        · exact hafter other hother
        · rw [hafter]
      · rintro t' ⟨⟩
        obtain ⟨hstored, -⟩ | ⟨hleft, -⟩ := hend.of_text hbytes
        · exact Or.inl ⟨hstored, hstored.not_leftAlone⟩
        · exact Or.inr ⟨hleft, fun hstored => hstored.not_leftAlone hleft⟩

end MarkupRepair
