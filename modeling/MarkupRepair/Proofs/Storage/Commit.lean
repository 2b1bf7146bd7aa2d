import Mathlib.Data.Set.Function
import MarkupRepair.Proofs.Issue.Analysis
import MarkupRepair.Proofs.Storage.Session
import MarkupRepair.Storage.Commit

/-!
# Storing a repair on a store that may fail

Two results about storing a repair. When every failure is reported, the text as it was, or the
repair once it has been found free of fatal issues, is on the store between any two calls. When
a write may even store other bytes and report success, a repair that is said to be stored is
stored. The second rests on the digest of what is read back, so it asks that the digest tells
the contents involved apart.
-/

namespace MarkupRepair

/-- Whether analysing a text finds no fatal issue. -/
def FreeOfFatal (t : Text) : Prop := ∀ i ∈ analyze t, i.isFatal = false

/-- The order of the issues does not matter for whether one of them is fatal. -/
theorem freeOfFatal_iff {t : Text} :
    FreeOfFatal t ↔ ∀ i ∈ (scan t).foundIssues, i.isFatal = false := by
  simp only [FreeOfFatal, mem_analyze_iff]

/-- A text is verified exactly when it is free of fatal issues, and then its issues remain. -/
theorem verify_eq_ok_iff {t : Text} {issues : List Issue} :
    verify t = .ok issues ↔ FreeOfFatal t ∧ issues = analyze t := by
  have hcount : (analyze t).countP Issue.isFatal = 0 ↔ FreeOfFatal t := by
    simp only [List.countP_eq_zero, Bool.not_eq_true, FreeOfFatal]
  unfold verify
  by_cases h : 0 < (analyze t).countP Issue.isFatal
  · have hn : ¬ FreeOfFatal t := fun hf => absurd (hcount.mpr hf) (by omega)
    simp [h, hn]
  · have hf : FreeOfFatal t := hcount.mp (by omega)
    simp [h, hf, eq_comm]

/-- What was read back is confirmed exactly when it has the expected digest and is a text free
of fatal issues. -/
theorem confirm_eq_ok_iff {expected : String} {readBack : Except Failure ByteArray}
    {issues : List Issue} :
    confirm expected readBack = .ok issues ↔
      ∃ bytes t, readBack = .ok bytes ∧ sha256Hex bytes = expected ∧
        Text.decode? bytes = some t ∧ FreeOfFatal t ∧ issues = analyze t := by
  cases readBack with
  | error why => simp [confirm]
  | ok bytes =>
      by_cases hd : sha256Hex bytes = expected
      · cases ht : Text.decode? bytes with
        | none => simp [confirm, hd, ht]
        | some t =>
            have hv : verify t = .ok issues ↔ FreeOfFatal t ∧ issues = analyze t :=
              verify_eq_ok_iff
            cases h : verify t <;> simp_all [confirm, Except.mapError]
      · simp [confirm, hd]

section Rules

variable {stores : ByteArray → ByteArray → Prop} {safe : Memory → Prop} {target backup : Path}
  {former repaired : Text} {wanted : CommitOutcome → Memory → Prop}
  {failed : EditError → Memory → Prop} {m : Memory}

/-- Storing a repair once there is a backup. -/
def storeOverBackup (target : Path) (session : BackupSession) (repaired : Text) :
    EditScript CommitOutcome := do
  let outcome ← ExceptT.lift (session.write repaired.encode).run
  match outcome with
  | .error why =>
      let _ ← session.restore
      throw why
  | .ok session =>
      let readBack ← ExceptT.lift (Script.request (.read target))
      match confirm (sha256Hex repaired.encode) readBack with
      | .ok issues =>
          let _ ← session.commit
          return .committed (sha256Hex repaired.encode) issues
      | .error reason =>
          let _ ← session.restore
          return .restored reason

theorem commitRepair_eq (target backup : Path) (former repaired : Text) :
    commitRepair target backup former repaired = (do
      let onDisk ← EditScript.ofStore (.request (.read target))
      if sha256Hex onDisk != sha256Hex former.encode then
        .refuse (.preconditionMismatch target)
      else
        let session ← BackupSession.snapshot ⟨target, backup, .untouched⟩
        storeOverBackup target session repaired) := rfl

/-- Before there is a backup nothing is changed; it is made when the target has the digest of
the text as it was and nothing stands in its place. -/
theorem ensures_commitRepair (hsafe : safe m) (hfailed : ∀ why, failed why m)
    (hdone : ∀ onDisk, m.get? target = some onDisk → sha256Hex onDisk = sha256Hex former.encode →
      m.get? backup = none → safe (m.put backup onDisk) ∧
        (storeOverBackup target ⟨target, backup, .backedUp⟩ repaired).Ensures
          (Memory.mayAnswer stores) safe wanted failed (m.put backup onDisk)) :
    (commitRepair target backup former repaired).Ensures (Memory.mayAnswer stores) safe
      wanted failed m := by
  rw [commitRepair_eq, EditScript.ensures_bind, EditScript.ensures_ofStore]
  intro onDisk after hread
  cases onDisk with
  | error why =>
      obtain rfl : after = m := hread
      exact ⟨hsafe, hfailed _⟩
  | ok bytes =>
      obtain ⟨hbytes, rfl⟩ := hread
      refine ⟨hsafe, ?_⟩
      by_cases hd : sha256Hex bytes = sha256Hex former.encode
      · simp only [Script.ensures_done, hd, bne_self_eq_false, Bool.false_eq_true, ↓reduceIte,
          EditScript.ensures_bind]
        refine BackupSession.ensures_snapshot hsafe hfailed ?_
        intro hb onDisk honDisk
        obtain rfl : bytes = onDisk := Option.some.inj (hbytes.symm.trans honDisk)
        exact hdone bytes hbytes hd hb
      · simp only [Script.ensures_done, bne_iff_ne, ne_eq, hd, not_false_eq_true, ↓reduceIte,
          EditScript.ensures_refuse]
        exact hfailed _

/-- After the backup the target is written and read back; what follows depends on whether the
write is reported to have failed and on whether what was read back is confirmed. -/
theorem ensures_storeOverBackup (hsafe : safe m) (hput : ∀ stored, safe (m.put target stored))
    (hwrite : ∀ stored, stores repaired.encode stored →
      (∀ issues, confirm (sha256Hex repaired.encode) (.ok stored) = .ok issues →
        (BackupSession.commit ⟨target, backup, .written⟩).Ensures (Memory.mayAnswer stores)
          safe (fun _ => wanted (.committed (sha256Hex repaired.encode) issues)) failed
          (m.put target stored)) ∧
      ∀ reason, (BackupSession.restore ⟨target, backup, .written⟩).Ensures
        (Memory.mayAnswer stores) safe (fun _ => wanted (.restored reason)) failed
        (m.put target stored))
    (hundo : ∀ after why, after = m ∨ (∃ stored, after = m.put target stored) →
      (BackupSession.restore ⟨target, backup, .backedUp⟩).Ensures (Memory.mayAnswer stores)
        safe (fun _ => failed why) failed after) :
    (storeOverBackup target ⟨target, backup, .backedUp⟩ repaired).Ensures
      (Memory.mayAnswer stores) safe wanted failed m := by
  have hfailed : ∀ after why, after = m ∨ (∃ stored, after = m.put target stored) →
      EditScript.Ensures (Memory.mayAnswer stores) safe
        (do let _ ← BackupSession.restore ⟨target, backup, .backedUp⟩; throw why)
        wanted failed after := by
    intro after why hafter
    rw [EditScript.ensures_bind]
    exact hundo after why hafter
  rw [storeOverBackup, EditScript.ensures_bind, EditScript.ensures_attempt]
  refine BackupSession.ensures_write (fun stored hs => ⟨hput stored, ?_⟩)
    ⟨hsafe, fun why => hfailed m (.runtime why) (Or.inl rfl)⟩
    fun stored => ⟨hput stored, fun why => hfailed _ (.runtime why) (Or.inr ⟨stored, rfl⟩)⟩
  obtain ⟨hcommit, hrestore⟩ := hwrite stored hs
  rw [EditScript.ensures_bind, EditScript.ensures_lift]
  intro readBack after hread
  have hsame : after = m.put target stored ∧ ∀ bytes, readBack = .ok bytes → bytes = stored := by
    cases readBack with
    | error why => exact ⟨hread, by simp⟩
    | ok bytes =>
        obtain ⟨hb, rfl⟩ := hread
        rw [Memory.get?_put_self] at hb
        exact ⟨rfl, fun _ h => Except.ok.inj h ▸ (Option.some.inj hb).symm⟩
  obtain ⟨rfl, hbytes⟩ := hsame
  refine ⟨hput stored, ?_⟩
  cases hc : confirm (sha256Hex repaired.encode) readBack with
  | error reason =>
      simp only [Script.ensures_done, EditScript.ensures_bind, EditScript.ensures_pure, hc]
      exact hrestore reason
  | ok issues =>
      simp only [Script.ensures_done, EditScript.ensures_bind, EditScript.ensures_pure, hc]
      obtain ⟨bytes, _, rfl, _⟩ := confirm_eq_ok_iff.mp hc
      obtain rfl := hbytes bytes rfl
      exact hcommit issues hc

end Rules

section Recovery

variable {target backup : Path} {former repaired : Text}

/-- The stores from which nothing is lost: one of the two paths holds the text as it was, or the
target holds a repair without fatal issues. -/
def Recoverable (target backup : Path) (former repaired : Text) (m : Memory) : Prop :=
  m.get? target = some former.encode ∨ m.get? backup = some former.encode ∨
    (m.get? target = some repaired.encode ∧ FreeOfFatal repaired)

/-- While the backup holds the text as it was, going back keeps every store recoverable. -/
theorem ensures_restore_recoverable {state : BackupState} {m : Memory}
    (hstate : state.canMoveTo .restored = true) (hne : target ≠ backup)
    (hb : m.get? backup = some former.encode) :
    (BackupSession.restore ⟨target, backup, state⟩).Ensures Memory.mayFail
      (Recoverable target backup former repaired)
      (fun _ => Recoverable target backup former repaired)
      (fun _ => Recoverable target backup former repaired) m := by
  have hput : ∀ stored, Recoverable target backup former repaired (m.put target stored) := by
    intro stored
    exact Or.inr (Or.inl (by rw [Memory.get?_put_of_ne hne.symm, hb]))
  have hm : Recoverable target backup former repaired m := Or.inr (Or.inl hb)
  refine BackupSession.ensures_restore hstate hm (fun _ => hm)
    (fun stored => ⟨hput stored, fun _ => hput stored⟩) ?_
  rintro bytes hbytes stored rfl
  have hformer : ((m.put target bytes).erase backup).get? target = some former.encode := by
    rw [Memory.get?_erase_of_ne hne, Memory.get?_put_self, ← hb, hbytes]
  exact ⟨Or.inl hformer, Or.inl hformer⟩

/-- Once there is a backup, every store on the way is recoverable. -/
theorem ensures_storeOverBackup_recoverable {m : Memory} (hne : target ≠ backup)
    (hb : m.get? backup = some former.encode) :
    (storeOverBackup target ⟨target, backup, .backedUp⟩ repaired).Ensures Memory.mayFail
      (Recoverable target backup former repaired)
      (fun _ => Recoverable target backup former repaired)
      (fun _ => Recoverable target backup former repaired) m := by
  have hbput : ∀ stored, (m.put target stored).get? backup = some former.encode := by
    intro stored
    rw [Memory.get?_put_of_ne hne.symm, hb]
  have hput : ∀ stored, Recoverable target backup former repaired (m.put target stored) :=
    fun stored => Or.inr (Or.inl (hbput stored))
  refine ensures_storeOverBackup (Or.inr (Or.inl hb)) hput ?_ ?_
  · rintro stored rfl
    refine ⟨?_, fun _ => ensures_restore_recoverable rfl hne (hbput _)⟩
    intro issues hc
    obtain ⟨bytes, t, hbytes, _, ht, hfree, _⟩ := confirm_eq_ok_iff.mp hc
    obtain rfl : repaired = t := by
      rw [← Except.ok.inj hbytes, Text.decode?_encode] at ht
      exact Option.some.inj ht
    have hdone : Recoverable target backup former repaired
        ((m.put target repaired.encode).erase backup) := by
      refine Or.inr (Or.inr ⟨?_, hfree⟩)
      rw [Memory.get?_erase_of_ne hne, Memory.get?_put_self]
    exact BackupSession.ensures_commit (hput _) (fun _ => hput _) ⟨hdone, hdone⟩
  · rintro after why (rfl | ⟨stored, rfl⟩)
    · exact ensures_restore_recoverable rfl hne hb
    · exact ensures_restore_recoverable rfl hne (hbput stored)

/-- From a target that holds the text as it was, every store on the way is recoverable. -/
theorem ensures_commitRepair_recoverable {m : Memory}
    (ht : m.get? target = some former.encode) :
    (commitRepair target backup former repaired).Ensures Memory.mayFail
      (Recoverable target backup former repaired)
      (fun _ => Recoverable target backup former repaired)
      (fun _ => Recoverable target backup former repaired) m := by
  have hm : Recoverable target backup former repaired m := Or.inl ht
  refine ensures_commitRepair hm (fun _ => hm) ?_
  intro onDisk hdisk _ hnone
  have hne : target ≠ backup := by
    rintro rfl
    rw [hnone] at ht
    cases ht
  obtain rfl : former.encode = onDisk := Option.some.inj (ht.symm.trans hdisk)
  have hb : (m.put backup former.encode).get? backup = some former.encode := by
    rw [Memory.get?_put_self]
  exact ⟨Or.inr (Or.inl hb), ensures_storeOverBackup_recoverable hne hb⟩

/-- A store that holds another text, or already has a backup, is left as it is. -/
theorem ensures_commitRepair_unchanged {stores : ByteArray → ByteArray → Prop} {m : Memory}
    (hdigest : ∀ bytes, m.get? target = some bytes → sha256Hex bytes = sha256Hex former.encode →
      bytes = former.encode)
    (hm : m.get? target ≠ some former.encode ∨ m.get? backup ≠ none) :
    (commitRepair target backup former repaired).Ensures (Memory.mayAnswer stores)
      (fun after => after = m) (fun _ after => after = m) (fun _ after => after = m) m := by
  refine ensures_commitRepair rfl (fun _ => rfl) ?_
  intro onDisk hdisk hd hnone
  rcases hm with ht | hb
  · rw [hdigest onDisk hdisk hd] at hdisk
    exact absurd hdisk ht
  · exact absurd hnone hb

/-- Storing a repair loses nothing when all failures are reported: whatever calls of the store
fail, and however often, every store from which the program could be interrupted is recoverable.
A target that does not hold the text the repair was made from, or a backup that is already
there, keeps the store from being changed at all. -/
theorem commitRepair_states_recoverable (m : Memory) (target backup : Path)
    (former repaired : Text) (faults : List Fault) (hfaults : ∀ f ∈ faults, f.IsLoud)
    (hdigest : Set.InjOn sha256Hex
      {bytes | bytes = former.encode ∨ m.get? target = some bytes}) :
    (m.get? target = some former.encode →
      ∀ s ∈ (Memory.host.faulty faults).states
        (commitRepair target backup former repaired).run ⟨m, []⟩,
        Recoverable target backup former repaired s.inner) ∧
    (m.get? target ≠ some former.encode ∨ m.get? backup ≠ none →
      ∀ s ∈ (Memory.host.faulty faults).states
        (commitRepair target backup former repaired).run ⟨m, []⟩, s.inner = m) := by
  have hmay : ∀ c ∈ (Memory.host.faulty faults).calls
      (commitRepair target backup former repaired).run ⟨m, []⟩,
      Memory.mayFail c.request c.before.inner
        ((Memory.host.faulty faults).answer c.request c.before).1
        ((Memory.host.faulty faults).after c).inner :=
    fun c _ => Memory.mayFail_faulty hfaults c.request c.before
  constructor
  · intro ht
    rw [Host.states, List.forall_mem_cons, List.forall_mem_map]
    exact ⟨Or.inl ht, (Host.run_of_ensures hmay (ensures_commitRepair_recoverable ht)).2⟩
  · intro hm
    rw [Host.states, List.forall_mem_cons, List.forall_mem_map]
    have hd : ∀ bytes, m.get? target = some bytes →
        sha256Hex bytes = sha256Hex former.encode → bytes = former.encode :=
      fun bytes hb h => hdigest (Or.inr hb) (Or.inl rfl) h
    exact ⟨rfl, (Host.run_of_ensures hmay (ensures_commitRepair_unchanged hd hm)).2⟩

/-- A bare ampersand is being repaired when the write fails half way and the write that is to
put it back fails as well. -/
theorem commitRepair_states_recoverable_of_failed_writes :
    Memory.get? [("a.xhtml", Text.encode ['&'])] "a.xhtml" = some (Text.encode ['&']) ∧
    ∀ s ∈ (Memory.host.faulty
        [⟨.write, 0, { fail := some "disk full", content := some "&am".toUTF8 }⟩,
          ⟨.write, 1, { fail := some "disk full", keep := some 0 }⟩]).states
      (commitRepair "a.xhtml" "a.xhtml.bak" ['&'] "&amp;".toList).run
      ⟨[("a.xhtml", Text.encode ['&'])], []⟩,
      Recoverable "a.xhtml" "a.xhtml.bak" ['&'] "&amp;".toList s.inner := by
  refine ⟨rfl, (commitRepair_states_recoverable _ _ _ _ _ _ ?_ ?_).1 rfl⟩
  · intro f hf
    simp only [List.mem_cons, List.not_mem_nil, or_false] at hf
    rcases hf with rfl | rfl
    · exact fun h => by cases h
    · exact fun h => by cases h
  · have hsame : ∀ bytes, Memory.get? [("a.xhtml", Text.encode ['&'])] "a.xhtml" = some bytes →
        bytes = Text.encode ['&'] := fun bytes h => (Option.some.inj h).symm
    rintro x (rfl | hx) y (rfl | hy) _
    · rfl
    · exact (hsame y hy).symm
    · exact hsame x hx
    · exact (hsame x hx).trans (hsame y hy).symm

end Recovery

section Success

variable {target backup : Path} {former repaired : Text} {faults : List Fault}
  {log : List (StoreOperation × Path)} {contents : Set ByteArray} {m : Memory}

/-- On a store whose calls do what they say a repair without fatal issues is stored over its
backup, and nothing else gets on the store. -/
theorem ensures_storeOverBackup_committed
    (hfaults : ∀ f ∈ faults, log.countP (·.1 == f.operation) + 2 ≤ f.nth) (hne : target ≠ backup)
    (hb : m.get? backup = some former.encode) (hfree : FreeOfFatal repaired)
    (hm : m.Within contents) (hnew : repaired.encode ∈ contents) :
    (storeOverBackup target ⟨target, backup, .backedUp⟩ repaired).Ensures
      (Memory.host.faulty faults).conduct (·.inner.Within contents)
      (fun outcome after =>
        outcome = .committed (sha256Hex repaired.encode) (analyze repaired) ∧
          after.inner = (m.put target repaired.encode).erase backup)
      (fun _ _ => False) ⟨m, (.copy, backup) :: (.isPresent, backup) :: (.read, target) :: log⟩ := by
  have hconfirm : confirm (sha256Hex repaired.encode) (.ok repaired.encode) =
      .ok (analyze repaired) :=
    confirm_eq_ok_iff.mpr ⟨_, repaired, rfl, rfl, Text.decode?_encode _, hfree, rfl⟩
  have hplan := plannedEffect?_eq_none_of_lt hfaults
  have hput := hm.put target hnew
  have herase := hput.erase backup
  rw [storeOverBackup, EditScript.ensures_bind, EditScript.ensures_attempt]
  simp [-bind_pure_comp, BackupSession.write, BackupSession.commit, BackupSession.check,
    BackupState.canMoveTo, EditScript.ensures_ofStore, Script.request, Script.ensures_ask,
    Host.conduct, Memory.faulty_answer, Request.storeCall?, Memory.answer, hplan, hconfirm,
    hb, hne.symm, hput, herase]

/-- A repair without fatal issues of the text that the target holds is stored, unless there is a
backup, when none of the next two calls of an operation goes wrong. The store holds the text, its
repair and what it held before all the while. -/
theorem ensures_commitRepair_committed
    (hfaults : ∀ f ∈ faults, log.countP (·.1 == f.operation) + 2 ≤ f.nth)
    (ht : m.get? target = some former.encode) (hb : m.get? backup = none)
    (hfree : FreeOfFatal repaired) (hm : m.Within contents) (hnew : repaired.encode ∈ contents) :
    (commitRepair target backup former repaired).Ensures
      (Memory.host.faulty faults).conduct (·.inner.Within contents)
      (fun outcome after =>
        outcome = .committed (sha256Hex repaired.encode) (analyze repaired) ∧
          after.inner = ((m.put backup former.encode).put target repaired.encode).erase backup)
      (fun _ _ => False) ⟨m, log⟩ := by
  have hne : target ≠ backup := by
    rintro rfl
    rw [hb] at ht
    cases ht
  have hput : (m.put backup former.encode).get? backup = some former.encode := by
    rw [Memory.get?_put_self]
  have hplan := plannedEffect?_eq_none_of_lt hfaults
  have hbacked := hm.put backup (hm target _ ht)
  have hstore := ensures_storeOverBackup_committed hfaults hne hput hfree hbacked hnew
  simp [-bind_pure_comp, commitRepair_eq, BackupSession.snapshot, BackupSession.check,
    BackupState.canMoveTo, EditScript.ensures_ofStore, Script.request, Script.ensures_ask,
    Host.conduct, Memory.faulty_answer, Request.storeCall?, Memory.answer, hplan, ht, hb, hm,
    hbacked]
  exact hstore

/-- Storing a repair does succeed. -/
theorem exists_run_commitRepair_committed (hfaults : ∀ f ∈ faults, 2 ≤ f.nth)
    (ht : m.get? target = some former.encode) (hb : m.get? backup = none)
    (hfree : FreeOfFatal repaired) :
    ∃ result, (Memory.host.faulty faults).run (commitRepair target backup former repaired).run
        ⟨m, []⟩ = (.ok (.committed (sha256Hex repaired.encode) (analyze repaired)), result) ∧
      result.inner = ((m.put backup former.encode).put target repaired.encode).erase backup := by
  have hsoon : ∀ f ∈ faults,
      ([] : List (StoreOperation × Path)).countP (·.1 == f.operation) + 2 ≤ f.nth := by
    simpa using hfaults
  have hm : m.Within Set.univ := fun _ _ _ => trivial
  have h := Host.run_of_ensures_conduct
    (ensures_commitRepair_committed hsoon ht hb hfree hm trivial)
  cases hrun : (Memory.host.faulty faults).run (commitRepair target backup former repaired).run
      ⟨m, []⟩ with
  | mk outcome result =>
      rw [hrun] at h
      cases outcome with
      | ok outcome =>
          obtain ⟨rfl, hinner⟩ := h
          exact ⟨result, rfl, hinner⟩
      | error why => exact h.elim

end Success

section Commitment

variable {target backup : Path} {former repaired : Text} {digest : String}
  {issues : List Issue} {m : Memory}

/-- What is known, in terms of digests, when a repair is said to be stored. -/
structure StoredRepair (stores : ByteArray → ByteArray → Prop) (target backup : Path)
    (former repaired : Text) (digest : String) (issues : List Issue) (m after : Memory) :
    Prop where
  /-- The target had the digest of the text as it was. -/
  held : ∃ bytes, m.get? target = some bytes ∧ sha256Hex bytes = sha256Hex former.encode
  /-- There was no backup. -/
  fresh : m.get? backup = none
  /-- The target holds what was stored for the repair. It has the digest of the repair and is a
  text with the issues that remain, none of them fatal. -/
  holds : ∃ bytes t, after.get? target = some bytes ∧ stores repaired.encode bytes ∧
    sha256Hex bytes = sha256Hex repaired.encode ∧ Text.decode? bytes = some t ∧
    FreeOfFatal t ∧ issues = analyze t
  /-- The digest is that of the repair. -/
  digest_eq : digest = sha256Hex repaired.encode
  /-- No other path has changed. -/
  other : ∀ path, path ≠ target → after.get? path = m.get? path

/-- When nothing is asked of the store, going back leads to whatever holds of every store. -/
theorem ensures_restore_of_forall {stores : ByteArray → ByteArray → Prop} {state : BackupState}
    {wanted : Memory → Prop} (hstate : state.canMoveTo .restored = true)
    (hwanted : ∀ after, wanted after) :
    (BackupSession.restore ⟨target, backup, state⟩).Ensures (Memory.mayAnswer stores)
      (fun _ => True) (fun _ => wanted) (fun _ _ => True) m := by
  refine BackupSession.ensures_restore hstate trivial (fun _ => trivial) ?_ ?_
  · intro stored
    exact ⟨trivial, fun _ => trivial⟩
  · intro bytes _ stored _
    exact ⟨trivial, hwanted _⟩

/-- Making a backup, writing the target and removing the backup changes the target only. -/
theorem get?_of_stored (hne : target ≠ backup) (hnone : m.get? backup = none)
    (bytes stored : ByteArray) (path : Path) :
    (((m.put backup bytes).put target stored).erase backup).get? path =
      if path = target then some stored else m.get? path := by
  rw [Memory.get?_erase, Memory.get?_put, Memory.get?_put]
  split_ifs with hbackup htarget htarget
  · exact absurd (htarget.symm.trans hbackup) hne
  · rw [hbackup, hnone]
  · rfl
  · rfl

/-- Whatever a write may store, a repair that is said to be stored is. -/
theorem ensures_commitRepair_stored {stores : ByteArray → ByteArray → Prop} :
    (commitRepair target backup former repaired).Ensures (Memory.mayAnswer stores)
      (fun _ => True)
      (fun outcome after => ∀ digest issues, outcome = .committed digest issues →
        StoredRepair stores target backup former repaired digest issues m after)
      (fun _ _ => True) m := by
  refine ensures_commitRepair trivial (fun _ => trivial) ?_
  intro onDisk hdisk hd hnone
  have hne : target ≠ backup := by
    rintro rfl
    rw [hnone] at hdisk
    cases hdisk
  refine ⟨trivial, ensures_storeOverBackup trivial (fun _ => trivial) ?_ ?_⟩
  · intro stored hs
    constructor
    · intro issues hc
      obtain ⟨bytes, t, hbytes, hdigest, ht, hfree, hissues⟩ := confirm_eq_ok_iff.mp hc
      obtain rfl := Except.ok.inj hbytes
      refine BackupSession.ensures_commit trivial (fun _ => trivial) ⟨trivial, ?_⟩
      rintro digest issues' ⟨⟩
      have hget := get?_of_stored hne hnone onDisk stored
      refine ⟨⟨onDisk, hdisk, hd⟩, hnone, ⟨stored, t, ?_, hs, hdigest, ht, hfree, hissues⟩, rfl, ?_⟩
      · rw [hget, if_pos rfl]
      · intro path hpath
        rw [hget, if_neg hpath]
    · intro reason
      apply ensures_restore_of_forall rfl
      rintro after digest issues ⟨⟩
  · intro after why _
    exact ensures_restore_of_forall rfl fun _ => trivial

/-- A repair that is said to be stored is stored, even when writes may store other bytes and
report success: the target held the text the repair was made from and now holds the repair, the
digest and the issues are those of what it holds, there was no backup and there is none now, and
nothing else has changed. -/
theorem commitRepair_committed (m : Memory) (target backup : Path) (former repaired : Text)
    (faults : List Fault) (hfaults : ∀ f ∈ faults, f.ReadsTruly) (result : Logged Memory)
    (digest : String) (issues : List Issue)
    (hdigest : Set.InjOn sha256Hex
      {bytes | bytes = former.encode ∨ bytes = repaired.encode ∨
        m.get? target = some bytes ∨ result.inner.get? target = some bytes})
    (hrun : (Memory.host.faulty faults).run
      (commitRepair target backup former repaired).run ⟨m, []⟩ =
        (.ok (.committed digest issues), result)) :
    m.get? target = some former.encode ∧ m.get? backup = none ∧
      result.inner.get? target = some repaired.encode ∧
      FreeOfFatal repaired ∧ issues = analyze repaired ∧
      (∃ bytes, result.inner.get? target = some bytes ∧ digest = sha256Hex bytes) ∧
      result.inner.get? backup = none ∧
      ∀ path, path ≠ target → result.inner.get? path = m.get? path := by
  have hmay : ∀ c ∈ (Memory.host.faulty faults).calls
      (commitRepair target backup former repaired).run ⟨m, []⟩,
      Memory.mayAnswer (fun _ _ => True) c.request c.before.inner
        ((Memory.host.faulty faults).answer c.request c.before).1
        ((Memory.host.faulty faults).after c).inner :=
    fun c _ => Memory.mayAnswer_faulty_of_readsTruly hfaults c.request c.before
  have hstored := (Host.run_of_ensures hmay ensures_commitRepair_stored).1
  rw [hrun] at hstored
  obtain ⟨⟨before, hbefore, hd⟩, hfresh, ⟨bytes, t, hbytes, _, hd', ht, hfree, hissues⟩, hdig,
    hother⟩ := hstored digest issues rfl
  obtain rfl : before = former.encode :=
    hdigest (Or.inr (Or.inr (Or.inl hbefore))) (Or.inl rfl) hd
  obtain rfl : bytes = repaired.encode :=
    hdigest (Or.inr (Or.inr (Or.inr hbytes))) (Or.inr (Or.inl rfl)) hd'
  obtain rfl : repaired = t := by
    rw [Text.decode?_encode] at ht
    exact Option.some.inj ht
  have hne : backup ≠ target := by
    rintro rfl
    rw [hfresh] at hbefore
    cases hbefore
  refine ⟨hbefore, hfresh, hbytes, hfree, hissues, ⟨_, hbytes, hdig⟩, ?_, hother⟩
  rw [hother backup hne, hfresh]

/-- The repair of a bare ampersand is stored although a third write would lose everything. -/
theorem commitRepair_committed_ampersand :
    ∃ result, (Memory.host.faulty [⟨.write, 2, { keep := some 0 }⟩]).run
        (commitRepair "a.xhtml" "a.xhtml.bak" ['&'] "&amp;".toList).run
        ⟨[("a.xhtml", Text.encode ['&'])], []⟩ =
      (.ok (.committed (sha256Hex (Text.encode "&amp;".toList)) (analyze "&amp;".toList)), result) ∧
    result.inner.get? "a.xhtml" = some (Text.encode "&amp;".toList) ∧
    result.inner.get? "a.xhtml.bak" = none := by
  have hfree : FreeOfFatal "&amp;".toList := by
    rw [freeOfFatal_iff]
    decide +kernel
  have hsha : ([Text.encode ['&'], Text.encode "&amp;".toList].map sha256Hex).Nodup := by
    decide +kernel
  have hheld : Memory.get? [("a.xhtml", Text.encode ['&'])] "a.xhtml" =
      some (Text.encode ['&']) := rfl
  have hfresh : Memory.get? [("a.xhtml", Text.encode ['&'])] "a.xhtml.bak" = none := by
    decide
  have hlater : ∀ f ∈ [(⟨.write, 2, { keep := some 0 }⟩ : Fault)], 2 ≤ f.nth := by
    simp
  have htrue : ∀ f ∈ [(⟨.write, 2, { keep := some 0 }⟩ : Fault)], f.ReadsTruly := by
    simp [Fault.ReadsTruly]
  obtain ⟨result, hrun, hresult⟩ :=
    exists_run_commitRepair_committed hlater hheld hfresh hfree
  have hnow : result.inner.get? "a.xhtml" = some (Text.encode "&amp;".toList) := by
    simp [hresult]
  have hdigest : Set.InjOn sha256Hex
      {bytes | bytes = Text.encode ['&'] ∨ bytes = Text.encode "&amp;".toList ∨
        Memory.get? [("a.xhtml", Text.encode ['&'])] "a.xhtml" = some bytes ∨
        result.inner.get? "a.xhtml" = some bytes} := by
    refine Memory.injOn_of_nodup hsha ?_
    rintro bytes (rfl | rfl | h | h)
    · simp
    · simp
    · exact Option.some.inj (hheld.symm.trans h) ▸ List.mem_cons_self
    · exact Option.some.inj (hnow.symm.trans h) ▸ List.mem_cons_of_mem _ List.mem_cons_self
  obtain ⟨_, _, hstored, _, _, _, hgone, _⟩ :=
    commitRepair_committed _ _ _ _ _ _ htrue result _ _ hdigest hrun
  exact ⟨result, hrun, hstored, hgone⟩

end Commitment

end MarkupRepair
