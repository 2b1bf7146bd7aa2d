import MarkupRepair.Proofs.Storage.Ending

/-!
# What a text that is said to be put back is

When the repair on the store cannot be confirmed, the text as it was is written over it once
more. This second write is not read back. So the target ends up with whatever that write has
stored, which is the text as it was only as far as the write can be relied on.
-/

namespace MarkupRepair

/-- Whether the write of some bytes, counted from zero among the writes, reports success and
stores the given ones. -/
def writeStores (faults : List Fault) (nth : Nat) (bytes stored : ByteArray) : Prop :=
  match faults.find? fun f => f.operation == .write && f.nth == nth with
  | some f => f.effect.fail = none ∧ f.effect.stored bytes = some stored
  | none => stored = bytes

/-- A write that no silent fault is meant for stores what it is given. -/
theorem eq_of_writeStores {faults : List Fault} {nth : Nat} {bytes stored : ByteArray}
    (hfaults : ∀ f ∈ faults, f.operation = .write → f.nth = nth → f.IsLoud)
    (h : writeStores faults nth bytes stored) : stored = bytes := by
  unfold writeStores at h
  split at h
  next f hf =>
    have hmeant := List.find?_some hf
    rw [Bool.and_eq_true, beq_iff_eq, beq_iff_eq] at hmeant
    obtain ⟨hc, hk⟩ := hfaults f (List.mem_of_find?_eq_some hf) hmeant.1 hmeant.2 h.1
    rw [FaultEffect.stored_eq_self h.1 hc hk] at h
    exact (Option.some.inj h.2).symm
  next => exact h

namespace Memory

/-- The conduct of a store in memory that counts its writes, where what a write may store
depends on its place among them. -/
def mayAnswerCounting (stores : Nat → ByteArray → ByteArray → Prop) : Conduct (Memory × Nat) :=
  fun r s a after => mayAnswer (stores s.2) r s.1 a after.1 ∧
    after.2 = s.2 + match r with
      | .write _ _ => 1
      | _ => 0

/-- A store under planned faults and the number of its writes so far. -/
def countingWrites (s : Logged Memory) : Memory × Nat :=
  (s.inner, s.log.countP (·.1 == .write))

/-- The answer to a write that goes as planned. -/
theorem faulty_answer_write {faults : List Fault} {s : Logged Memory} {path : Path}
    {bytes stored : ByteArray}
    (h : writeStores faults (s.log.countP (·.1 == .write)) bytes stored) :
    (Memory.host.faulty faults).answer (.write path bytes) s =
      (.ok (), ⟨s.inner.put path stored, (.write, path) :: s.log⟩) := by
  rw [faulty_answer]
  unfold writeStores at h
  split at h
  next f hf =>
    simp [Request.storeCall?, plannedEffect?, hf, FaultEffect.answer, h.1, h.2, Memory.host,
      Memory.answer]
  next hf =>
    simp [Request.storeCall?, plannedEffect?, hf, Memory.answer, h]

/-- A write reports success as planned, or it fails and at most its path is damaged. -/
theorem mayAnswer_faulty_write (faults : List Fault) (s : Logged Memory) (path : Path)
    (bytes : ByteArray) :
    mayAnswer (writeStores faults (s.log.countP (·.1 == .write))) (.write path bytes) s.inner
      ((Memory.host.faulty faults).answer (.write path bytes) s).1
      ((Memory.host.faulty faults).answer (.write path bytes) s).2.inner := by
  have hplanned : ∀ stored, writeStores faults (s.log.countP (·.1 == .write)) bytes stored →
      mayAnswer (writeStores faults (s.log.countP (·.1 == .write))) (.write path bytes) s.inner
        ((Memory.host.faulty faults).answer (.write path bytes) s).1
        ((Memory.host.faulty faults).answer (.write path bytes) s).2.inner := by
    intro stored h
    rw [faulty_answer_write h]
    exact ⟨stored, h, rfl⟩
  cases hf : faults.find? fun f =>
      f.operation == .write && f.nth == s.log.countP (·.1 == .write) with
  | none => exact hplanned bytes (by rw [writeStores, hf])
  | some f =>
      cases hfail : f.effect.fail with
      | none =>
          obtain ⟨stored, hstored⟩ := FaultEffect.stored_of_fail_eq_none hfail bytes
          exact hplanned stored (by rw [writeStores, hf]; exact ⟨hfail, hstored⟩)
      | some message =>
          rw [faulty_answer]
          cases hb : f.effect.stored bytes with
          | none =>
              simp [Request.storeCall?, plannedEffect?, hf, FaultEffect.answer, hfail, hb,
                mayAnswer]
          | some stored =>
              simp only [Request.storeCall?, plannedEffect?, hf, FaultEffect.answer, hfail, hb,
                Option.map_some]
              exact Or.inr ⟨stored, rfl⟩

/-- Planned faults that leave reads alone keep to the conduct that counts writes. -/
theorem mayAnswerCounting_faulty {faults : List Fault} (hfaults : ∀ f ∈ faults, f.ReadsTruly)
    (r : Request) (s : Logged Memory) :
    mayAnswerCounting (writeStores faults) r (countingWrites s)
      ((Memory.host.faulty faults).answer r s).1
      (countingWrites ((Memory.host.faulty faults).answer r s).2) := by
  have hmay := mayAnswer_faulty_of_readsTruly hfaults r s
  have hother : (∀ path bytes, r ≠ .write path bytes) →
      mayAnswer (writeStores faults (countingWrites s).2) r s.inner
        ((Memory.host.faulty faults).answer r s).1
        ((Memory.host.faulty faults).answer r s).2.inner :=
    fun h => mayAnswer_of_write hmay fun path bytes _ hr _ => absurd hr (h path bytes)
  cases r with
  | write path bytes =>
      refine ⟨mayAnswer_faulty_write faults s path bytes, ?_⟩
      simp [countingWrites, faulty_answer, Request.storeCall?]
  | _ =>
      refine ⟨hother (by simp), ?_⟩
      simp [countingWrites, faulty_answer, Request.storeCall?]

end Memory

/-- A script ensures what holds of every value and every store. -/
theorem Script.ensures_of_forall {σ α : Type} {may : Conduct σ} {wanted : α → σ → Prop}
    (h : ∀ value after, wanted value after) (script : Script α) (s : σ) :
    script.Ensures may (fun _ => True) wanted s := by
  induction script generalizing s with
  | done value => exact h value s
  | ask r next ih => exact fun answer after _ => ⟨trivial, ih answer after⟩

theorem EditScript.ensures_of_forall {σ α : Type} {may : Conduct σ} {wanted : α → σ → Prop}
    {failed : EditError → σ → Prop} (hw : ∀ value after, wanted value after)
    (hf : ∀ why after, failed why after) (x : EditScript α) (s : σ) :
    x.Ensures may (fun _ => True) wanted failed s := by
  refine Script.ensures_of_forall ?_ x.run s
  intro result after
  cases result with
  | ok value => exact hw value after
  | error why => exact hf why after

/-- What is known when a text is said to be put back. -/
structure PutBack (stores : ByteArray → ByteArray → Prop) (target backup : Path) (former : Text)
    (m after : Memory) : Prop where
  /-- There was no backup. -/
  fresh : m.get? backup = none
  /-- The target had the digest of the text as it was, and it holds what was stored for the bytes
  that it had. -/
  holds : ∃ bytes stored, m.get? target = some bytes ∧ sha256Hex bytes = sha256Hex former.encode ∧
    stores bytes stored ∧ after.get? target = some stored
  /-- No other path has changed. -/
  other : ∀ path, path ≠ target → after.get? path = m.get? path

section Rules

variable {stores : Nat → ByteArray → ByteArray → Prop} {target backup : Path}
  {former repaired : Text} {m : Memory} {n : Nat}

/-- Going back puts into the target what the write of the backup's bytes stores, if it comes to
an end. -/
theorem BackupSession.ensures_restore_counting {state : BackupState} {bytes : ByteArray}
    {wanted : BackupSession → Memory × Nat → Prop}
    (hb : m.get? backup = some bytes)
    (hdone : ∀ stored, stores n bytes stored →
      wanted ⟨target, backup, .restored⟩ ((m.put target stored).erase backup, n + 1)) :
    (restore ⟨target, backup, state⟩).Ensures (Memory.mayAnswerCounting stores) (fun _ => True)
      wanted (fun _ _ => True) (m, n) := by
  simp only [restore, check]
  split
  · simp only [EditScript.ensures_bind, EditScript.ensures_pure, EditScript.ensures_ofStore,
      Script.request, Script.ensures_ask, Script.ensures_done]
    rintro former ⟨after, _⟩ ⟨hread, rfl⟩
    refine ⟨trivial, ?_⟩
    cases former with
    | error why => trivial
    | ok former =>
        obtain ⟨hformer, hsame⟩ := hread
        obtain rfl : after = m := hsame
        obtain rfl := Option.some.inj (hformer.symm.trans hb)
        rintro answer ⟨written, _⟩ ⟨hwritten, rfl⟩
        refine ⟨trivial, ?_⟩
        cases answer with
        | error why => trivial
        | ok value =>
            obtain ⟨stored, hs, hput⟩ := hwritten
            obtain rfl : written = _ := hput
            rintro answer ⟨removed, _⟩ ⟨hremoved, rfl⟩
            refine ⟨trivial, ?_⟩
            cases answer with
            | error why => trivial
            | ok value =>
                obtain rfl : removed = _ := hremoved
                exact hdone stored hs
  · trivial

/-- Over a backup, a text is only said to be put back after a second write of the bytes in the
backup. -/
theorem ensures_storeOverBackup_putBack {bytes : ByteArray} (hne : target ≠ backup)
    (ht : m.get? target = some bytes) (hd : sha256Hex bytes = sha256Hex former.encode)
    (hfresh : m.get? backup = none) :
    (storeOverBackup target ⟨target, backup, .backedUp⟩ repaired).Ensures
      (Memory.mayAnswerCounting stores) (fun _ => True)
      (fun outcome after => ∀ reason, outcome = .restored reason →
        PutBack (stores 1) target backup former m after.1)
      (fun _ _ => True) (m.put backup bytes, 0) := by
  rw [storeOverBackup, EditScript.ensures_bind, EditScript.ensures_attempt]
  simp only [BackupSession.write, BackupSession.check, BackupState.canMoveTo, if_true,
    EditScript.ensures_bind, EditScript.ensures_pure, EditScript.ensures_ofStore, Script.request,
    Script.ensures_ask, Script.ensures_done]
  rintro answer ⟨written, _⟩ ⟨hwritten, rfl⟩
  refine ⟨trivial, ?_⟩
  cases answer with
  | error why => exact EditScript.ensures_of_forall (fun _ _ => trivial) (fun _ _ => trivial) _ _
  | ok value =>
      obtain ⟨first, -, hput⟩ := hwritten
      obtain rfl : written = _ := hput
      simp only [EditScript.ensures_lift, Script.ensures_ask, Script.ensures_done]
      rintro readBack ⟨after, _⟩ ⟨hread, rfl⟩
      refine ⟨trivial, ?_⟩
      obtain rfl : after = (m.put backup bytes).put target first := by
        cases readBack with
        | error why => exact hread
        | ok bytes => exact hread.2
      cases confirm (sha256Hex repaired.encode) readBack with
      | ok issues =>
          simp only [EditScript.ensures_bind, EditScript.ensures_pure]
          refine EditScript.ensures_of_forall ?_ (fun _ _ => trivial) _ _
          rintro session after reason ⟨⟩
      | error reason =>
          simp only [EditScript.ensures_bind, EditScript.ensures_pure]
          have hbackup : ((m.put backup bytes).put target first).get? backup = some bytes := by
            rw [Memory.get?_put_of_ne hne.symm, Memory.get?_put_self]
          refine BackupSession.ensures_restore_counting hbackup ?_
          intro stored hs reason _
          have hget := Memory.get?_of_put_back hne hfresh
            (fun path hpath => Memory.get?_put_of_ne hpath (m.put backup bytes) first) stored
          refine ⟨hfresh, ⟨bytes, stored, ht, hd, hs, ?_⟩, ?_⟩
          · rw [hget, if_pos rfl]
          · intro path hpath
            rw [hget, if_neg hpath]

/-- A text is only said to be put back when there was no backup, and then the target holds what a
second write has stored for the bytes that it had. -/
theorem ensures_commitRepair_putBack :
    (commitRepair target backup former repaired).Ensures (Memory.mayAnswerCounting stores)
      (fun _ => True)
      (fun outcome after => ∀ reason, outcome = .restored reason →
        PutBack (stores 1) target backup former m after.1)
      (fun _ _ => True) (m, 0) := by
  rw [commitRepair_eq, EditScript.ensures_bind, EditScript.ensures_ofStore]
  rintro answer ⟨after, _⟩ ⟨hread, rfl⟩
  refine ⟨trivial, ?_⟩
  cases answer with
  | error why => trivial
  | ok bytes =>
      obtain ⟨ht, hsame⟩ := hread
      obtain rfl : after = m := hsame
      simp only [Script.ensures_done]
      split
      next => trivial
      next hd =>
        rw [bne_iff_ne, not_not] at hd
        simp only [BackupSession.snapshot, BackupSession.check, BackupState.canMoveTo, if_true,
          EditScript.ensures_bind, EditScript.ensures_pure, EditScript.ensures_lift,
          Script.request, Script.ensures_ask, Script.ensures_done]
        rintro stale ⟨_, _⟩ ⟨⟨⟩, rfl⟩
        refine ⟨trivial, ?_⟩
        cases hfresh : after.get? backup with
        | some old => trivial
        | none =>
            have hne := Memory.ne_of_get?_eq_none ht hfresh
            simp only [Option.isSome_none, Bool.false_eq_true, if_false, EditScript.ensures_bind,
              EditScript.ensures_ofStore, Script.ensures_ask, Script.ensures_done,
              EditScript.ensures_pure]
            rintro copied ⟨backedUp, _⟩ ⟨hcopied, rfl⟩
            refine ⟨trivial, ?_⟩
            cases copied with
            | error why => trivial
            | ok value =>
                obtain ⟨copy, hcopy, hput⟩ := hcopied
                obtain rfl : backedUp = _ := hput
                obtain rfl := Option.some.inj (hcopy.symm.trans ht)
                exact ensures_storeOverBackup_putBack hne ht hd hfresh

end Rules

section Planned

variable {faults : List Fault} {target backup : Path} {former repaired : Text} {m : Memory}
  {bytes stored : ByteArray}

/-- A planned write stores what it is planned to store. -/
theorem EditScript.ensures_write_planned {s : Logged Memory} {path : Path}
    {wanted : Unit → Logged Memory → Prop} {failed : EditError → Logged Memory → Prop}
    (h : writeStores faults (s.log.countP (·.1 == .write)) bytes stored) :
    (ofStore (Script.request (.write path bytes))).Ensures (Memory.host.faulty faults).conduct
        (fun _ => True) wanted failed s ↔
      wanted () ⟨s.inner.put path stored, (.write, path) :: s.log⟩ := by
  simp [ensures_ofStore, Script.request, Script.ensures_ask, Host.conduct,
    Memory.faulty_answer_write h]

/-- A read that no fault is meant for gives what is there. -/
theorem EditScript.ensures_read_planned {s : Logged Memory} {path : Path}
    {wanted : ByteArray → Logged Memory → Prop} {failed : EditError → Logged Memory → Prop}
    (hplan : plannedEffect? faults s.log .read = none) (h : s.inner.get? path = some bytes) :
    (ofStore (Script.request (.read path))).Ensures (Memory.host.faulty faults).conduct
        (fun _ => True) wanted failed s ↔
      wanted bytes ⟨s.inner, (.read, path) :: s.log⟩ := by
  simp [ensures_ofStore, Script.request, Script.ensures_ask, Host.conduct, Memory.faulty_answer,
    Request.storeCall?, Memory.answer, hplan, h]

/-- When only writes go wrong and what the first one has stored is not confirmed, the text is
said to be put back, whatever the second write stores. -/
theorem ensures_commitRepair_unconfirmed (hfaults : ∀ f ∈ faults, f.operation = .write)
    (ht : m.get? target = some former.encode) (hb : m.get? backup = none)
    {first second : ByteArray} {reason : String}
    (hfirst : writeStores faults 0 repaired.encode first)
    (hconfirm : confirm (sha256Hex repaired.encode) (.ok first) = .error reason)
    (hsecond : writeStores faults 1 former.encode second) :
    (commitRepair target backup former repaired).Ensures (Memory.host.faulty faults).conduct
      (fun _ => True)
      (fun outcome after => outcome = .restored reason ∧ after.inner.get? target = some second)
      (fun _ _ => False) ⟨m, []⟩ := by
  have hne := Memory.ne_of_get?_eq_none ht hb
  have hbackup : ((m.put backup former.encode).put target first).get? backup =
      some former.encode := by
    rw [Memory.get?_put_of_ne hne.symm, Memory.get?_put_self]
  have hplan : ∀ operation log, operation ≠ .write →
      plannedEffect? faults log operation = none := by
    intro operation log hwrite
    refine plannedEffect?_eq_none_of_ne ?_ log
    rintro f hf rfl
    exact hwrite (hfaults f hf)
  rw [ensures_commitRepair_backedUp (fun f hf => Or.inl (hfaults f hf)) ht hb, storeOverBackup,
    EditScript.ensures_bind, EditScript.ensures_attempt]
  simp only [BackupSession.write, BackupSession.check, BackupState.canMoveTo, if_true,
    EditScript.ensures_bind, EditScript.ensures_pure]
  rw [EditScript.ensures_write_planned hfirst]
  simp only [EditScript.ensures_lift, Script.request, Script.ensures_ask, Host.conduct,
    Memory.faulty_answer, Request.storeCall?, Memory.answer, Memory.get?_put, if_true, ne_eq,
    reduceCtorEq, not_false_eq_true, hplan, Script.ensures_done]
  rintro _ _ ⟨⟩
  simp only [hconfirm, BackupSession.restore, BackupSession.check, BackupState.canMoveTo, if_true,
    EditScript.ensures_bind, EditScript.ensures_pure]
  refine ⟨trivial, ?_⟩
  rw [EditScript.ensures_read_planned (hplan _ _ (by decide)) hbackup,
    EditScript.ensures_write_planned hsecond]
  simp [EditScript.ensures_ofStore, Script.request, Script.ensures_ask, Host.conduct,
    Memory.faulty_answer, Request.storeCall?, Memory.answer, hplan, hne.symm, hne]

/-- A write whose bytes have come out differently does lead to a text that is said to be put
back. -/
theorem exists_run_commitRepair_restored (hfaults : ∀ f ∈ faults, f.operation = .write)
    (ht : m.get? target = some former.encode) (hb : m.get? backup = none)
    {first second : ByteArray} (hfirst : writeStores faults 0 repaired.encode first)
    (hsha : sha256Hex first ≠ sha256Hex repaired.encode)
    (hsecond : writeStores faults 1 former.encode second) :
    ∃ reason result, (Memory.host.faulty faults).run
        (commitRepair target backup former repaired).run ⟨m, []⟩ =
          (.ok (.restored reason), result) ∧
      result.inner.get? target = some second := by
  obtain ⟨reason, hconfirm⟩ : ∃ reason,
      confirm (sha256Hex repaired.encode) (.ok first) = .error reason := by
    simp [confirm, hsha]
  have h := Host.run_of_ensures_conduct
    (ensures_commitRepair_unconfirmed hfaults ht hb hfirst hconfirm hsecond)
  cases hrun : (Memory.host.faulty faults).run (commitRepair target backup former repaired).run
      ⟨m, []⟩ with
  | mk outcome result =>
      rw [hrun] at h
      cases outcome with
      | ok outcome =>
          obtain ⟨rfl, hsecond⟩ := h
          exact ⟨reason, result, rfl, hsecond⟩
      | error why => exact h.elim

end Planned

/-- A store with nothing but an ampersand. -/
def ampersandOnly : Memory := [("a.xhtml", Text.encode ['&'])]

theorem get?_ampersandOnly :
    ampersandOnly.get? "a.xhtml" = some (Text.encode ['&']) ∧
      ampersandOnly.get? "a.xhtml.bak" = none := by
  constructor
  · rfl
  · decide

/-- The plan that the first two writes store only so many bytes and report success. -/
def tornWrites (first second : Nat) : List Fault :=
  [⟨.write, 0, { keep := some first }⟩, ⟨.write, 1, { keep := some second }⟩]

theorem readsTruly_tornWrites (first second : Nat) :
    ∀ f ∈ tornWrites first second, f.ReadsTruly := by
  simp [tornWrites, Fault.ReadsTruly]

/-- When only a part of its repair is stored, the ampersand is said to be put back, whatever of
it is stored then. -/
theorem exists_run_ampersandOnly_restored (second : Nat) :
    ∃ reason result, (Memory.host.faulty (tornWrites 4 second)).run
        (commitRepair "a.xhtml" "a.xhtml.bak" ['&'] "&amp;".toList).run ⟨ampersandOnly, []⟩ =
          (.ok (.restored reason), result) ∧
      result.inner.get? "a.xhtml" = some ((Text.encode ['&']).extract 0 second) := by
  have hsha : sha256Hex ((Text.encode "&amp;".toList).extract 0 4) ≠
      sha256Hex (Text.encode "&amp;".toList) := by
    decide +kernel
  exact exists_run_commitRepair_restored (by simp [tornWrites]) get?_ampersandOnly.1
    get?_ampersandOnly.2 ⟨rfl, rfl⟩ hsha ⟨rfl, rfl⟩

/-- When a text is said to be put back, the target held it, there was no backup and there is none
now, and nothing else has changed. The target holds what the second write has stored for the
text, and so the text itself unless that write stores other bytes and reports success. -/
theorem commitRepair_restored (m : Memory) (target backup : Path) (former repaired : Text)
    (faults : List Fault) (hfaults : ∀ f ∈ faults, f.ReadsTruly) (result : Logged Memory)
    (reason : String)
    (hdigest : Set.InjOn sha256Hex
      {bytes | bytes = former.encode ∨ m.get? target = some bytes})
    (hrun : (Memory.host.faulty faults).run
      (commitRepair target backup former repaired).run ⟨m, []⟩ = (.ok (.restored reason), result)) :
    m.get? target = some former.encode ∧ m.get? backup = none ∧
      (∃ stored, writeStores faults 1 former.encode stored ∧
        result.inner.get? target = some stored) ∧
      ((∀ f ∈ faults, f.operation = .write → f.nth = 1 → f.IsLoud) →
        result.inner.get? target = some former.encode) ∧
      result.inner.get? backup = none ∧
      ∀ path, path ≠ target → result.inner.get? path = m.get? path := by
  have hmay : ∀ c ∈ (Memory.host.faulty faults).calls
      (commitRepair target backup former repaired).run ⟨m, []⟩,
      Memory.mayAnswerCounting (writeStores faults) c.request (Memory.countingWrites c.before)
        ((Memory.host.faulty faults).answer c.request c.before).1
        (Memory.countingWrites ((Memory.host.faulty faults).after c)) :=
    fun c _ => Memory.mayAnswerCounting_faulty hfaults c.request c.before
  have hback := (Host.run_of_ensures hmay ensures_commitRepair_putBack).1
  rw [hrun] at hback
  obtain ⟨hfresh, ⟨bytes, stored, ht, hd, hstored, hholds⟩, hother⟩ := hback reason rfl
  obtain rfl : bytes = former.encode := hdigest (Or.inr ht) (Or.inl rfl) hd
  have hne := (Memory.ne_of_get?_eq_none ht hfresh).symm
  refine ⟨ht, hfresh, ⟨stored, hstored, hholds⟩, ?_, ?_, hother⟩
  · intro hloud
    rw [← eq_of_writeStores hloud hstored]
    exact hholds
  · exact (hother backup hne).trans hfresh

/-- A text that is said to be put back may be lost: of the ampersand nothing is left. -/
theorem commitRepair_restored_lost :
    (∀ f ∈ tornWrites 4 0, f.ReadsTruly) ∧
      ∃ reason result, (Memory.host.faulty (tornWrites 4 0)).run
          (commitRepair "a.xhtml" "a.xhtml.bak" ['&'] "&amp;".toList).run ⟨ampersandOnly, []⟩ =
            (.ok (.restored reason), result) ∧
        result.inner.get? "a.xhtml" ≠ some (Text.encode ['&']) := by
  obtain ⟨reason, result, hrun, hresult⟩ := exists_run_ampersandOnly_restored 0
  refine ⟨readsTruly_tornWrites 4 0, reason, result, hrun, ?_⟩
  rw [hresult]
  decide

/-- The ampersand is put back when the second write stores all of it. -/
theorem commitRepair_restored_ampersand :
    ∃ reason result, (Memory.host.faulty (tornWrites 4 1)).run
        (commitRepair "a.xhtml" "a.xhtml.bak" ['&'] "&amp;".toList).run ⟨ampersandOnly, []⟩ =
          (.ok (.restored reason), result) ∧
      result.inner.get? "a.xhtml" = some (Text.encode ['&']) ∧
      result.inner.get? "a.xhtml.bak" = none := by
  have hdigest : Set.InjOn sha256Hex
      {bytes | bytes = Text.encode ['&'] ∨ ampersandOnly.get? "a.xhtml" = some bytes} := by
    have hsame : ∀ bytes,
        bytes = Text.encode ['&'] ∨ ampersandOnly.get? "a.xhtml" = some bytes →
          bytes = Text.encode ['&'] := by
      rintro bytes (rfl | h)
      · rfl
      · exact Option.some.inj (h.symm.trans get?_ampersandOnly.1)
    intro x hx y hy _
    exact (hsame x hx).trans (hsame y hy).symm
  obtain ⟨reason, result, hrun, -⟩ := exists_run_ampersandOnly_restored 1
  obtain ⟨-, -, ⟨stored, hstored, hholds⟩, -, hgone, -⟩ := commitRepair_restored _ _ _ _ _ _
    (readsTruly_tornWrites 4 1) result reason hdigest hrun
  refine ⟨reason, result, hrun, ?_, hgone⟩
  have hwhole : (Text.encode ['&']).extract 0 1 = Text.encode ['&'] := by
    decide
  rw [hholds, ← hwhole]
  exact hstored.2.symm

end MarkupRepair
