import MarkupRepair.Proofs.Storage.Budget
import MarkupRepair.Proofs.Storage.Commit

/-!
# How storing a repair ends

Storing a repair over the text that it was made from, on a store with at most one failure left,
ends in one of a few ways. Each of them is given with its outcome and with the store that it
leaves behind. When the one failure does not come, only two are left: the repair is stored, or
an old backup stands in its way.
-/

namespace MarkupRepair

/-- A path that holds something is not one that holds nothing. -/
theorem Memory.ne_of_get?_eq_none {m : Memory} {p q : Path} {bytes : ByteArray}
    (hp : m.get? p = some bytes) (hq : m.get? q = none) : p ≠ q := by
  rintro rfl
  rw [hq] at hp
  cases hp

/-- When a backup has been made where there was none, the target has been changed and then written,
and the backup has been removed, the target holds what was written, and the rest is as it was. -/
theorem Memory.get?_of_put_back {m between : Memory} {target backup : Path} {bytes : ByteArray}
    (hne : target ≠ backup) (hfresh : m.get? backup = none)
    (hbetween : ∀ path, path ≠ target → between.get? path = (m.put backup bytes).get? path)
    (stored : ByteArray) (path : Path) :
    ((between.put target stored).erase backup).get? path =
      if path = target then some stored else m.get? path := by
  split
  next htarget => rw [htarget, get?_erase_of_ne hne, get?_put_self]
  next htarget =>
    by_cases hbackup : path = backup
    · rw [hbackup, get?_erase_self, hfresh]
    · rw [get?_erase_of_ne hbackup, get?_put_of_ne htarget, hbetween path htarget,
        get?_put_of_ne hbackup]

/-- A repair without fatal issues that is read back as it was written is confirmed. -/
theorem confirm_encode {t : Text} (h : FreeOfFatal t) :
    confirm (sha256Hex t.encode) (.ok t.encode) = .ok (analyze t) :=
  confirm_eq_ok_iff.mpr ⟨_, t, rfl, rfl, Text.decode?_encode _, h, rfl⟩

namespace EditScript

variable {failing : Request → Prop} {failed : EditError → Memory × Nat → Prop} {m : Memory}
  {n : Nat} {path : Path}

/-- Reading what is there gives it, or fails and changes nothing. -/
theorem ensures_read_within {wanted : ByteArray → Memory × Nat → Prop} {bytes : ByteArray}
    (hget : m.get? path = some bytes) (hdone : wanted bytes (m, n))
    (hfailed : ∀ why left, n = left + 1 → failed (.runtime why) (m, left)) :
    (ofStore (Script.request (.read path))).Ensures (Memory.mayFailWithin failing)
      (fun _ => True) wanted failed (m, n) := by
  rw [ensures_ofStore, Script.request, Memory.ensures_ask_within]
  constructor
  · simpa [Memory.answer, hget] using hdone
  · intro answer after left _ hn hfails
    cases answer with
    | ok bytes => exact hfails.elim
    | error why =>
        obtain rfl : after = m := hfails
        exact hfailed why left hn

/-- Copying what is there copies it, or fails and changes nothing. -/
theorem ensures_copy_within {wanted : Unit → Memory × Nat → Prop} {target : Path}
    {bytes : ByteArray} (hget : m.get? path = some bytes)
    (hdone : wanted () (m.put target bytes, n))
    (hfailed : ∀ why left, n = left + 1 → failed (.runtime why) (m, left)) :
    (ofStore (Script.request (.copy path target))).Ensures (Memory.mayFailWithin failing)
      (fun _ => True) wanted failed (m, n) := by
  rw [ensures_ofStore, Script.request, Memory.ensures_ask_within]
  constructor
  · simpa [Memory.answer, hget] using hdone
  · intro answer after left _ hn hfails
    cases answer with
    | ok value => exact hfails.elim
    | error why =>
        obtain rfl : after = m := hfails
        exact hfailed why left hn

/-- Writing stores what it is given, or fails and leaves anything at the path. -/
theorem ensures_write_within {wanted : Unit → Memory × Nat → Prop} {bytes : ByteArray}
    (hdone : wanted () (m.put path bytes, n))
    (hfailed : ∀ after why left, n = left + 1 → (after = m ∨ ∃ stored, after = m.put path stored) →
      failed (.runtime why) (after, left)) :
    (ofStore (Script.request (.write path bytes))).Ensures (Memory.mayFailWithin failing)
      (fun _ => True) wanted failed (m, n) := by
  rw [ensures_ofStore, Script.request, Memory.ensures_ask_within]
  constructor
  · exact hdone
  · intro answer after left _ hn hfails
    cases answer with
    | ok value => exact hfails.elim
    | error why => exact hfailed after why left hn hfails

/-- Removing what is there removes it, or fails and changes nothing. -/
theorem ensures_remove_within {wanted : Unit → Memory × Nat → Prop} {bytes : ByteArray}
    (hget : m.get? path = some bytes) (hdone : wanted () (m.erase path, n))
    (hfailed : ∀ why left, failing (.remove path) → n = left + 1 →
      failed (.runtime why) (m, left)) :
    (ofStore (Script.request (.remove path))).Ensures (Memory.mayFailWithin failing)
      (fun _ => True) wanted failed (m, n) := by
  rw [ensures_ofStore, Script.request, Memory.ensures_ask_within]
  constructor
  · simpa [Memory.answer, hget] using hdone
  · intro answer after left hr hn hfails
    cases answer with
    | ok value => exact hfails.elim
    | error why =>
        obtain rfl : after = m := hfails
        exact hfailed why left hr hn

end EditScript

/-- How storing a repair over the text that the target holds may end on a store with at most one
failure left: the number of failures left at the beginning, the outcome, and the store at the
end with the number of failures then left. -/
inductive StoringEnd (failing : Request → Prop) (target backup : Path) (former repaired : Text)
    (m : Memory) : Nat → Except EditError CommitOutcome → Memory × Nat → Prop where
  /-- There is a backup already, and nothing is changed. -/
  | stale {n : Nat} (held : m.get? backup ≠ none) :
      StoringEnd failing target backup former repaired m n
        (.error (.refused (.staleBackup backup))) (m, n)
  /-- The target cannot be read or copied, and nothing is changed. -/
  | unread (why : Failure) :
      StoringEnd failing target backup former repaired m 1 (.error (.runtime why)) (m, 0)
  /-- The repair is stored. -/
  | stored {n : Nat} (fresh : m.get? backup = none) :
      StoringEnd failing target backup former repaired m n
        (.ok (.committed (sha256Hex repaired.encode) (analyze repaired)))
        (((m.put backup former.encode).put target repaired.encode).erase backup, n)
  /-- The target cannot be written or read back, and the text as it was is put back. -/
  | undone {outcome : Except EditError CommitOutcome} {after : Memory}
      (notStored : ∀ digest issues, outcome ≠ .ok (.committed digest issues))
      (same : ∀ path, after.get? path = m.get? path) :
      StoringEnd failing target backup former repaired m 1 outcome (after, 0)
  /-- The repair is stored, but its backup cannot be removed. -/
  | uncleared (fresh : m.get? backup = none) (failed : failing (.remove backup))
      (why : Failure) :
      StoringEnd failing target backup former repaired m 1 (.error (.runtime why))
        ((m.put backup former.encode).put target repaired.encode, 0)

section Rules

variable {failing : Request → Prop} {target backup : Path} {former repaired : Text}
  {m : Memory} {n : Nat}

/-- With no failure left, going back puts the backup in place of the target and removes it. -/
theorem BackupSession.ensures_restore_within {state : BackupState} {bytes : ByteArray}
    {wanted : BackupSession → Memory × Nat → Prop} {failed : EditError → Memory × Nat → Prop}
    (hstate : state.canMoveTo .restored = true) (hne : target ≠ backup)
    (hb : m.get? backup = some bytes)
    (hdone : wanted ⟨target, backup, .restored⟩ ((m.put target bytes).erase backup, 0)) :
    (restore ⟨target, backup, state⟩).Ensures (Memory.mayFailWithin failing)
      (fun _ => True) wanted failed (m, 0) := by
  have hput : (m.put target bytes).get? backup = some bytes := by
    rw [Memory.get?_put_of_ne hne.symm, hb]
  simp only [restore, check, hstate, if_true, EditScript.ensures_bind, EditScript.ensures_pure]
  refine EditScript.ensures_read_within hb ?_ fun _ _ hn => absurd hn (by omega)
  refine EditScript.ensures_write_within ?_ fun _ _ _ hn => absurd hn (by omega)
  exact EditScript.ensures_remove_within hput hdone fun _ _ _ hn => absurd hn (by omega)

/-- With no failure left, going back gives the store as it was, whatever has become of the target. -/
theorem ensures_restore_undone {state : BackupState} {between : Memory}
    {outcome : Except EditError CommitOutcome} {failed : EditError → Memory × Nat → Prop}
    (hstate : state.canMoveTo .restored = true) (hne : target ≠ backup)
    (ht : m.get? target = some former.encode) (hb : m.get? backup = none)
    (hbetween : ∀ path, path ≠ target →
      between.get? path = (m.put backup former.encode).get? path)
    (hnot : ∀ digest issues, outcome ≠ .ok (.committed digest issues)) :
    (BackupSession.restore ⟨target, backup, state⟩).Ensures (Memory.mayFailWithin failing)
      (fun _ => True) (fun _ => StoringEnd failing target backup former repaired m 1 outcome)
      failed (between, 0) := by
  have hbackup : between.get? backup = some former.encode := by
    rw [hbetween backup hne.symm, Memory.get?_put_self]
  refine BackupSession.ensures_restore_within hstate hne hbackup (.undone hnot fun path => ?_)
  rw [Memory.get?_of_put_back hne hb hbetween]
  split
  next htarget => rw [htarget, ht]
  next => rfl

/-- Over a backup the repair is stored and the backup removed, or the text as it was is put back,
unless it is the removal that fails. -/
theorem ensures_storeOverBackup_within (hn : n ≤ 1) (hne : target ≠ backup)
    (ht : m.get? target = some former.encode) (hb : m.get? backup = none)
    (hfree : FreeOfFatal repaired) :
    (storeOverBackup target ⟨target, backup, .backedUp⟩ repaired).Ensures
      (Memory.mayFailWithin failing) (fun _ => True)
      (fun outcome => StoringEnd failing target backup former repaired m n (.ok outcome))
      (fun why => StoringEnd failing target backup former repaired m n (.error why))
      (m.put backup former.encode, n) := by
  have hput : ∀ stored path, path ≠ target →
      ((m.put backup former.encode).put target stored).get? path =
        (m.put backup former.encode).get? path :=
    fun stored path hpath => Memory.get?_put_of_ne hpath _ stored
  have hsize : ∀ left, n = left + 1 → n = 1 ∧ left = 0 := by
    omega
  have hconfirm := confirm_encode hfree
  rw [storeOverBackup, EditScript.ensures_bind, EditScript.ensures_attempt]
  simp only [BackupSession.write, BackupSession.check, BackupState.canMoveTo, if_true,
    EditScript.ensures_bind, EditScript.ensures_pure]
  refine EditScript.ensures_write_within ?_ ?_
  · rw [EditScript.ensures_lift, Script.request, Memory.ensures_ask_within]
    constructor
    · simp only [Memory.answer, Memory.get?_put, if_true, Script.ensures_done, hconfirm,
        BackupSession.commit, BackupSession.check, BackupState.canMoveTo,
        EditScript.ensures_bind, EditScript.ensures_pure]
      have hheld : ((m.put backup former.encode).put target repaired.encode).get? backup =
          some former.encode := by
        rw [Memory.get?_put_of_ne hne.symm, Memory.get?_put_self]
      refine EditScript.ensures_remove_within hheld (.stored hb) ?_
      intro why left hr hleft
      obtain ⟨rfl, rfl⟩ := hsize left hleft
      exact .uncleared hb hr why
    · intro answer after left _ hleft hfails
      obtain ⟨rfl, rfl⟩ := hsize left hleft
      cases answer with
      | ok bytes => exact hfails.elim
      | error why =>
          obtain rfl : after = _ := hfails
          simp only [Script.ensures_done, confirm, EditScript.ensures_bind,
            EditScript.ensures_pure]
          exact ensures_restore_undone rfl hne ht hb (hput _) (by simp)
  · intro after why left hleft hafter
    obtain ⟨rfl, rfl⟩ := hsize left hleft
    have hbetween : ∀ path, path ≠ target →
        after.get? path = (m.put backup former.encode).get? path := by
      rcases hafter with rfl | ⟨stored, rfl⟩
      · exact fun _ _ => rfl
      · exact hput stored
    simp only [EditScript.ensures_throw]
    exact ensures_restore_undone rfl hne ht hb hbetween (by simp)

/-- On a store with at most one failure left, storing a verified repair over the text that it was
made from ends in one of these ways. -/
theorem ensures_commitRepair_within (hn : n ≤ 1) (ht : m.get? target = some former.encode)
    (hfree : FreeOfFatal repaired) :
    (commitRepair target backup former repaired).run.Ensures (Memory.mayFailWithin failing)
      (fun _ => True) (StoringEnd failing target backup former repaired m n) (m, n) := by
  have hsize : ∀ left, n = left + 1 → n = 1 ∧ left = 0 := by
    omega
  suffices h : (commitRepair target backup former repaired).Ensures
      (Memory.mayFailWithin failing) (fun _ => True)
      (fun outcome => StoringEnd failing target backup former repaired m n (.ok outcome))
      (fun why => StoringEnd failing target backup former repaired m n (.error why)) (m, n) by
    refine h.mono ?_
    intro result after hresult
    cases result with
    | ok outcome => exact hresult
    | error why => exact hresult
  have hunread : ∀ why left, n = left + 1 →
      StoringEnd failing target backup former repaired m n (.error (.runtime why)) (m, left) := by
    intro why left hleft
    obtain ⟨rfl, rfl⟩ := hsize left hleft
    exact .unread why
  rw [commitRepair_eq, EditScript.ensures_bind]
  refine EditScript.ensures_read_within ht ?_ hunread
  simp only [bne_self_eq_false, Bool.false_eq_true, if_false, BackupSession.snapshot,
    BackupSession.check, BackupState.canMoveTo, if_true, EditScript.ensures_bind,
    EditScript.ensures_pure, EditScript.ensures_lift, Script.request,
    Memory.ensures_ask_within]
  constructor
  · cases hb : m.get? backup with
    | some bytes =>
        simp only [Memory.answer, hb, Option.isSome_some, if_true, Script.ensures_done,
          EditScript.ensures_refuse]
        exact .stale (by simp [hb])
    | none =>
        have hne := Memory.ne_of_get?_eq_none ht hb
        simp only [Memory.answer, hb, Option.isSome_none, Bool.false_eq_true, if_false,
          Script.ensures_done, EditScript.ensures_bind, EditScript.ensures_pure]
        exact EditScript.ensures_copy_within ht
          (ensures_storeOverBackup_within hn hne ht hb hfree) hunread
  · intro answer after left _ _ hfails
    exact hfails.elim

end Rules

/-- No effect is planned for an operation that no fault is for. -/
theorem plannedEffect?_eq_none_of_ne {faults : List Fault} {operation : StoreOperation}
    (hfaults : ∀ f ∈ faults, f.operation ≠ operation) (log : List (StoreOperation × Path)) :
    plannedEffect? faults log operation = none := by
  rw [plannedEffect?, Option.map_eq_none_iff, List.find?_eq_none]
  intro f hf hmatch
  simp only [Bool.and_eq_true, beq_iff_eq] at hmatch
  exact hfaults f hf hmatch.1

/-- The plan that the first removal fails. -/
def removalFails (message : String) : List Fault := [⟨.remove, 0, { fail := some message }⟩]

theorem isLoud_removalFails (message : String) : ∀ f ∈ removalFails message, f.IsLoud := by
  simp [removalFails, Fault.IsLoud]

section Planned

variable {target backup : Path} {former repaired : Text} {faults : List Fault} {m : Memory}
  {log : List (StoreOperation × Path)} {wanted : CommitOutcome → Logged Memory → Prop}
  {failed : EditError → Logged Memory → Prop}

/-- When only writes and removals go wrong, a repair of the text that the target holds comes as
far as its backup. -/
theorem ensures_commitRepair_backedUp
    (hfaults : ∀ f ∈ faults, f.operation = .write ∨ f.operation = .remove)
    (ht : m.get? target = some former.encode) (hb : m.get? backup = none) :
    (commitRepair target backup former repaired).Ensures (Memory.host.faulty faults).conduct
        (fun _ => True) wanted failed ⟨m, log⟩ ↔
      (storeOverBackup target ⟨target, backup, .backedUp⟩ repaired).Ensures
        (Memory.host.faulty faults).conduct (fun _ => True) wanted failed
        ⟨m.put backup former.encode,
          (.copy, backup) :: (.isPresent, backup) :: (.read, target) :: log⟩ := by
  have hplan : ∀ operation log, operation ≠ .write → operation ≠ .remove →
      plannedEffect? faults log operation = none := by
    intro operation log hwrite hremove
    refine plannedEffect?_eq_none_of_ne ?_ log
    rintro f hf rfl
    exact (hfaults f hf).elim hwrite hremove
  simp [-bind_pure_comp, commitRepair_eq, BackupSession.snapshot, BackupSession.check,
    BackupState.canMoveTo, EditScript.ensures_ofStore, Script.request, Script.ensures_ask,
    Host.conduct, Memory.faulty_answer, Request.storeCall?, Memory.answer, hplan, ht, hb]

/-- When the backup cannot be removed, the repair is stored and yet an error is reported. -/
theorem ensures_commitRepair_uncleared (message : String)
    (ht : m.get? target = some former.encode) (hb : m.get? backup = none)
    (hfree : FreeOfFatal repaired) (hlog : log.countP (·.1 == .remove) = 0) :
    (commitRepair target backup former repaired).Ensures
      (Memory.host.faulty (removalFails message)).conduct (fun _ => True) (fun _ _ => False)
      (fun _ after => after.inner = (m.put backup former.encode).put target repaired.encode)
      ⟨m, log⟩ := by
  have hconfirm := confirm_encode hfree
  rw [ensures_commitRepair_backedUp (by simp [removalFails]) ht hb, storeOverBackup,
    EditScript.ensures_bind, EditScript.ensures_attempt]
  simp [-bind_pure_comp, BackupSession.write, BackupSession.commit, BackupSession.check,
    BackupState.canMoveTo, EditScript.ensures_ofStore, Script.request, Script.ensures_ask,
    Host.conduct, Memory.faulty_answer, Request.storeCall?, Memory.answer, plannedEffect?,
    removalFails, FaultEffect.answer, hconfirm, hlog]

end Planned

end MarkupRepair
