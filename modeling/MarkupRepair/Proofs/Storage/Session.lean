import MarkupRepair.Proofs.Storage.Conduct
import MarkupRepair.Storage.Backup

/-!
# Backup sessions on stores that may fail

What the steps of a backup session ensure on a store whose calls may fail, in terms of the
stores that they may leave behind. A step that succeeds has done what it says; one that fails
may only have damaged the path that it was writing.
-/

namespace MarkupRepair

namespace EditScript

variable {σ α β : Type} {may : Conduct σ} {safe : σ → Prop} {s : σ}

/-- Under every answer that the conduct allows, the store is safe after each request, and the
script ends with a value as wanted or with an error as expected. -/
def Ensures (may : Conduct σ) (safe : σ → Prop) (x : EditScript α) (wanted : α → σ → Prop)
    (failed : EditError → σ → Prop) (s : σ) : Prop :=
  x.run.Ensures may safe (fun result after =>
    match result with
    | .ok value => wanted value after
    | .error why => failed why after) s

variable {wanted : α → σ → Prop} {failed : EditError → σ → Prop}

@[simp] theorem ensures_pure {value : α} :
    Ensures may safe (pure value) wanted failed s ↔ wanted value s := Iff.rfl

@[simp] theorem ensures_refuse {why : Refusal} :
    Ensures may safe (refuse why) wanted failed s ↔ failed (.refused why) s := Iff.rfl

@[simp] theorem ensures_throw {why : EditError} :
    Ensures may safe (throw why) wanted failed s ↔ failed why s := Iff.rfl

/-- A sequence ends early with the errors of its first part. -/
@[simp] theorem ensures_bind {x : EditScript β} {f : β → EditScript α} :
    Ensures may safe (x >>= f) wanted failed s ↔
      x.Ensures may safe (fun value after => (f value).Ensures may safe wanted failed after)
        failed s := by
  unfold Ensures
  rw [ExceptT.run_bind, Script.ensures_bind]
  constructor
  all_goals
    intro h
    refine h.mono ?_
    intro result after hr
    cases result with
    | ok value => exact hr
    | error why => exact hr

@[simp] theorem ensures_lift {script : Script α} :
    Ensures may safe (ExceptT.lift script) wanted failed s ↔
      script.Ensures may safe wanted s := by
  unfold Ensures
  rw [ExceptT.run_lift, ← bind_pure_comp, Script.ensures_bind]
  rfl

/-- Attempting a script takes its errors as values. -/
theorem ensures_attempt {x : EditScript β} {wanted : Except EditError β → σ → Prop} :
    Ensures may safe (ExceptT.lift x.run) wanted failed s ↔
      x.Ensures may safe (fun value => wanted (.ok value)) (fun why => wanted (.error why)) s := by
  rw [ensures_lift]
  constructor
  all_goals
    intro h
    refine h.mono ?_
    intro result after hr
    cases result with
    | ok value => exact hr
    | error why => exact hr

theorem ensures_ofStore {script : Script (Except Failure α)} :
    Ensures may safe (ofStore script) wanted failed s ↔
      script.Ensures may safe (fun answer after =>
        match answer with
        | .ok value => wanted value after
        | .error why => failed (.runtime why) after) s := by
  unfold Ensures ofStore
  rw [ExceptT.run_mk, Script.ensures_bind]
  constructor
  all_goals
    intro h
    refine h.mono ?_
    intro answer after ha
    cases answer with
    | ok value => exact ha
    | error why => exact ha

end EditScript

namespace BackupSession

variable {stores : ByteArray → ByteArray → Prop} {safe : Memory → Prop} {target backup : Path}
  {wanted : BackupSession → Memory → Prop} {failed : EditError → Memory → Prop} {m : Memory}

/-- A snapshot that succeeds has found no backup and made one of what the target holds. -/
theorem ensures_snapshot (hsafe : safe m) (hfailed : ∀ why, failed why m)
    (hdone : m.get? backup = none → ∀ bytes, m.get? target = some bytes →
      safe (m.put backup bytes) ∧
        wanted ⟨target, backup, .backedUp⟩ (m.put backup bytes)) :
    (snapshot ⟨target, backup, .untouched⟩).Ensures (Memory.mayAnswer stores) safe
      wanted failed m := by
  simp only [snapshot, check, BackupState.canMoveTo, if_true, EditScript.ensures_bind,
    EditScript.ensures_pure, EditScript.ensures_lift, Script.request, Script.ensures_ask,
    Script.ensures_done]
  rintro stale after ⟨⟩
  refine ⟨hsafe, ?_⟩
  cases hb : m.get? backup with
  | some bytes =>
      simp only [Option.isSome_some, ↓reduceIte, EditScript.ensures_refuse]
      exact hfailed _
  | none =>
      simp only [Option.isSome_none, Bool.false_eq_true, ↓reduceIte, EditScript.ensures_bind,
        EditScript.ensures_ofStore, Script.ensures_ask, Script.ensures_done,
        EditScript.ensures_pure]
      intro copied after hcopied
      cases copied with
      | ok value =>
          obtain ⟨bytes, ht, rfl⟩ := hcopied
          exact hdone hb bytes ht
      | error why =>
          obtain rfl : after = m := hcopied
          exact ⟨hsafe, hfailed _⟩

/-- A write changes no path but the target. -/
theorem ensures_write {bytes : ByteArray}
    (hdone : ∀ stored, stores bytes stored → safe (m.put target stored) ∧
      wanted ⟨target, backup, .written⟩ (m.put target stored))
    (hsame : safe m ∧ ∀ why, failed (.runtime why) m)
    (hfailed : ∀ stored, safe (m.put target stored) ∧
      ∀ why, failed (.runtime why) (m.put target stored)) :
    (write ⟨target, backup, .backedUp⟩ bytes).Ensures (Memory.mayAnswer stores) safe
      wanted failed m := by
  simp only [write, check, BackupState.canMoveTo, if_true, EditScript.ensures_bind,
    EditScript.ensures_pure, EditScript.ensures_ofStore, Script.request, Script.ensures_ask,
    Script.ensures_done]
  intro answer after hwritten
  cases answer with
  | ok value =>
      obtain ⟨stored, hs, rfl⟩ := hwritten
      exact hdone stored hs
  | error why =>
      obtain rfl | ⟨stored, rfl⟩ := hwritten
      · exact ⟨hsame.1, hsame.2 _⟩
      · exact ⟨(hfailed stored).1, (hfailed stored).2 _⟩

/-- Keeping the repair removes the backup and nothing else. -/
theorem ensures_commit (hsafe : safe m) (hfailed : ∀ why, failed (.runtime why) m)
    (hdone : safe (m.erase backup) ∧ wanted ⟨target, backup, .committed⟩ (m.erase backup)) :
    (commit ⟨target, backup, .written⟩).Ensures (Memory.mayAnswer stores) safe
      wanted failed m := by
  simp only [commit, check, BackupState.canMoveTo, if_true, EditScript.ensures_bind,
    EditScript.ensures_pure, EditScript.ensures_ofStore, Script.request, Script.ensures_ask,
    Script.ensures_done]
  intro answer after hremoved
  cases answer with
  | ok value =>
      obtain rfl : after = m.erase backup := hremoved
      exact hdone
  | error why =>
      obtain rfl : after = m := hremoved
      exact ⟨hsafe, hfailed _⟩

/-- Going back reads the backup, writes its bytes over the target and then removes it; it may
stop after any of these. -/
theorem ensures_restore {state : BackupState} (hstate : state.canMoveTo .restored = true)
    (hsafe : safe m) (hfailed : ∀ why, failed (.runtime why) m)
    (hwriting : ∀ stored, safe (m.put target stored) ∧
      ∀ why, failed (.runtime why) (m.put target stored))
    (hdone : ∀ former, m.get? backup = some former → ∀ stored, stores former stored →
      safe ((m.put target stored).erase backup) ∧
        wanted ⟨target, backup, .restored⟩ ((m.put target stored).erase backup)) :
    (restore ⟨target, backup, state⟩).Ensures (Memory.mayAnswer stores) safe
      wanted failed m := by
  simp only [restore, check, hstate, if_true, EditScript.ensures_bind,
    EditScript.ensures_pure, EditScript.ensures_ofStore, Script.request, Script.ensures_ask,
    Script.ensures_done]
  intro former after hread
  cases former with
  | error why =>
      obtain rfl : after = m := hread
      exact ⟨hsafe, hfailed _⟩
  | ok bytes =>
      obtain ⟨hb, rfl⟩ := hread
      refine ⟨hsafe, ?_⟩
      intro answer written hwritten
      cases answer with
      | error why =>
          obtain rfl | ⟨stored, rfl⟩ := hwritten
          · exact ⟨hsafe, hfailed _⟩
          · exact ⟨(hwriting stored).1, (hwriting stored).2 _⟩
      | ok value =>
          obtain ⟨stored, hs, rfl⟩ := hwritten
          refine ⟨(hwriting stored).1, ?_⟩
          intro answer removed hremoved
          cases answer with
          | error why =>
              obtain rfl : removed = after.put target stored := hremoved
              exact ⟨(hwriting stored).1, (hwriting stored).2 _⟩
          | ok value =>
              obtain rfl : removed = (after.put target stored).erase backup := hremoved
              exact hdone bytes hb stored hs

end BackupSession

end MarkupRepair
