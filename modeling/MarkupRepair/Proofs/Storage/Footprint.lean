import MarkupRepair.Proofs.Storage.Conduct
import MarkupRepair.Storage.Commit

/-!
# The paths that a script is about

A script stays within a set of paths when it asks about no other path, whatever it is answered.
On a store in memory such a script changes no path outside the set, and what it does depends on
nothing outside: on two stores that agree on the set it ends with the same value and leaves the
set alike. Storing a repair stays within the target and its backup.
-/

namespace MarkupRepair

/-- Whether a request is about paths of a set only. -/
def Request.Within (own : Set Path) : Request → Prop
  | .read path | .remove path | .isPresent path | .claim path | .release path | .kindOf path
  | .list path | .makeDirectory path => path ∈ own
  | .write path _ | .publish path _ => path ∈ own
  | .copy source target => source ∈ own ∧ target ∈ own
  | .now => True

namespace Script

/-- Whether a script is about paths of a set only and ends with a value as wanted, whatever it is
answered. -/
def Within {α : Type} (own : Set Path) (wanted : α → Prop) : Script α → Prop
  | .done value => wanted value
  | .ask r next => r.Within own ∧ ∀ answer, (next answer).Within own wanted

variable {α β : Type} {own : Set Path} {wanted : α → Prop}

theorem within_request {r : Request} {wanted : r.Answer → Prop} (h : r.Within own)
    (hw : ∀ answer, wanted answer) : (request r).Within own wanted :=
  ⟨h, hw⟩

theorem within_bind {script : Script β} {f : β → Script α} {between : β → Prop}
    (h : script.Within own between) (hf : ∀ value, between value → (f value).Within own wanted) :
    (script >>= f).Within own wanted := by
  induction script with
  | done value => exact hf value h
  | ask r next ih => exact ⟨h.1, fun answer => ih answer (h.2 answer)⟩

end Script

namespace Memory

/-- Whether two stores hold the same under every path of a set. -/
def AgreeOn (own : Set Path) (m m' : Memory) : Prop := ∀ path ∈ own, m.get? path = m'.get? path

variable {own : Set Path} {m m' m'' : Memory}

theorem AgreeOn.refl (m : Memory) : AgreeOn own m m := fun _ _ => rfl

theorem AgreeOn.symm (h : AgreeOn own m m') : AgreeOn own m' m := fun path hp => (h path hp).symm

theorem AgreeOn.trans (h : AgreeOn own m m') (h' : AgreeOn own m' m'') : AgreeOn own m m'' :=
  fun path hp => (h path hp).trans (h' path hp)

theorem AgreeOn.put (h : AgreeOn own m m') (path : Path) (bytes : ByteArray) :
    AgreeOn own (m.put path bytes) (m'.put path bytes) := by
  intro p hp
  rw [get?_put, get?_put, h p hp]

theorem AgreeOn.erase (h : AgreeOn own m m') (path : Path) :
    AgreeOn own (m.erase path) (m'.erase path) := by
  intro p hp
  rw [get?_erase, get?_erase, h p hp]

theorem agreeOn_compl_put {path : Path} (h : path ∈ own) (m : Memory) (bytes : ByteArray) :
    AgreeOn ownᶜ (m.put path bytes) m := by
  intro p hp
  rw [get?_put_of_ne (ne_of_mem_of_not_mem h hp).symm]

theorem agreeOn_compl_erase {path : Path} (h : path ∈ own) (m : Memory) :
    AgreeOn ownᶜ (m.erase path) m := by
  intro p hp
  rw [get?_erase_of_ne (ne_of_mem_of_not_mem h hp).symm]

/-- A request changes nothing outside the paths that it is about. -/
theorem answer_agreeOn_compl {r : Request} (h : r.Within own) (m : Memory) :
    AgreeOn ownᶜ (answer r m).2 m := by
  cases r with
  | read path => simp only [answer]; split <;> exact .refl m
  | write path bytes => exact agreeOn_compl_put h m bytes
  | copy source target =>
      simp only [answer]
      split
      · exact agreeOn_compl_put h.2 m _
      · exact .refl m
  | remove path =>
      simp only [answer]
      split
      · exact agreeOn_compl_erase h m
      · exact .refl m
  | claim path =>
      simp only [answer]
      split
      · exact .refl m
      · exact agreeOn_compl_put h m _
  | release path => exact agreeOn_compl_erase h m
  | publish path bytes => exact agreeOn_compl_put h m bytes
  | isPresent path => exact .refl m
  | kindOf path => exact .refl m
  | list path => exact .refl m
  | makeDirectory path => exact .refl m
  | now => exact .refl m

/-- The answer to a request, and what becomes of the paths that it is about, depends on nothing
but those paths. -/
theorem answer_of_agreeOn {r : Request} (h : r.Within own) (hagree : AgreeOn own m m') :
    (answer r m).1 = (answer r m').1 ∧ AgreeOn own (answer r m).2 (answer r m').2 := by
  cases r with
  | read path =>
      simp only [answer, hagree path h]
      cases m'.get? path <;> exact ⟨rfl, hagree⟩
  | write path bytes => exact ⟨rfl, hagree.put path bytes⟩
  | copy source target =>
      simp only [answer, hagree source h.1]
      cases m'.get? source with
      | none => exact ⟨rfl, hagree⟩
      | some bytes => exact ⟨rfl, hagree.put target bytes⟩
  | remove path =>
      simp only [answer, hagree path h]
      cases m'.get? path with
      | none => exact ⟨rfl, hagree⟩
      | some bytes => exact ⟨rfl, hagree.erase path⟩
  | claim path =>
      simp only [answer, hagree path h]
      cases m'.get? path with
      | none => exact ⟨rfl, hagree.put path _⟩
      | some bytes => exact ⟨rfl, hagree⟩
  | release path => exact ⟨rfl, hagree.erase path⟩
  | publish path bytes => exact ⟨rfl, hagree.put path bytes⟩
  | isPresent path => exact ⟨congrArg Option.isSome (hagree path h), hagree⟩
  | kindOf path =>
      exact ⟨congrArg (Option.map fun _ => FileKind.file) (hagree path h), hagree⟩
  | list path => exact ⟨rfl, hagree⟩
  | makeDirectory path => exact ⟨rfl, hagree⟩
  | now => exact ⟨rfl, hagree⟩

variable {α : Type} {script : Script α} {wanted : α → Prop}

/-- A script changes nothing outside the paths that it is about. -/
theorem run_agreeOn_compl (h : script.Within own wanted) (m : Memory) :
    AgreeOn ownᶜ (host.run script m).2 m := by
  induction script generalizing m with
  | done value => exact .refl m
  | ask r next ih => exact (ih _ (h.2 _) _).trans (answer_agreeOn_compl h.1 m)

/-- The value of a script, and what becomes of the paths that it is about, depends on nothing
but those paths. -/
theorem run_of_agreeOn (h : script.Within own wanted) (hagree : AgreeOn own m m') :
    (host.run script m).1 = (host.run script m').1 ∧
      AgreeOn own (host.run script m).2 (host.run script m').2 := by
  induction script generalizing m m' with
  | done value => exact ⟨rfl, hagree⟩
  | ask r next ih =>
      obtain ⟨hanswer, hafter⟩ := answer_of_agreeOn h.1 hagree
      rw [Host.run_ask, Host.run_ask]
      change (host.run (next (answer r m).1) (answer r m).2).1 =
          (host.run (next (answer r m').1) (answer r m').2).1 ∧
        AgreeOn own (host.run (next (answer r m).1) (answer r m).2).2
          (host.run (next (answer r m').1) (answer r m').2).2
      rw [hanswer]
      exact ih _ (h.2 _) hafter

end Memory

namespace EditScript

variable {α β : Type} {own : Set Path} {wanted : α → Prop}

/-- Whether a script that may end early is about paths of a set only and otherwise ends with a
value as wanted. -/
def Within (own : Set Path) (wanted : α → Prop) (x : EditScript α) : Prop :=
  x.run.Within own fun result => ∀ value, result = .ok value → wanted value

theorem within_pure {value : α} (h : wanted value) :
    Within own wanted (pure value : EditScript α) := by
  rintro _ ⟨⟩
  exact h

theorem within_throw (why : EditError) : Within own wanted (throw why : EditScript α) := by
  rintro _ ⟨⟩

theorem within_refuse (why : Refusal) : Within own wanted (refuse why : EditScript α) :=
  within_throw _

theorem within_bind {x : EditScript β} {f : β → EditScript α} {between : β → Prop}
    (h : x.Within own between) (hf : ∀ value, between value → (f value).Within own wanted) :
    Within own wanted (x >>= f) := by
  unfold Within
  rw [ExceptT.run_bind]
  refine Script.within_bind h ?_
  intro result hresult
  cases result with
  | ok value => exact hf value (hresult value rfl)
  | error why => exact within_throw why

theorem within_lift {script : Script α} (h : script.Within own wanted) :
    Within own wanted (ExceptT.lift script) := by
  unfold Within
  rw [ExceptT.run_lift, ← bind_pure_comp]
  refine Script.within_bind h ?_
  rintro value hvalue _ ⟨⟩
  exact hvalue

theorem within_ofStore {script : Script (Except Failure α)}
    (h : script.Within own fun _ => True) : (ofStore script).Within own fun _ => True := by
  unfold Within ofStore
  rw [ExceptT.run_mk]
  exact Script.within_bind h fun _ _ _ _ => trivial

end EditScript

namespace BackupSession

open EditScript

variable {own : Set Path} {s : BackupSession}

/-- Whether two sessions are on the same file. -/
def SameFile (s s' : BackupSession) : Prop := s'.target = s.target ∧ s'.backup = s.backup

theorem within_check (next : BackupState) : (s.check next).Within own fun _ => True := by
  unfold check
  split
  · exact within_pure trivial
  · exact within_refuse _

theorem within_snapshot (htarget : s.target ∈ own) (hbackup : s.backup ∈ own) :
    s.snapshot.Within own s.SameFile := by
  refine within_bind (within_check _) fun _ _ => ?_
  refine within_bind (within_lift (Script.within_request hbackup fun _ => trivial))
    fun stale _ => ?_
  cases stale with
  | true => exact within_refuse _
  | false =>
      refine within_bind (within_ofStore (Script.within_request ⟨htarget, hbackup⟩
        fun _ => trivial)) fun _ _ => ?_
      exact within_pure ⟨rfl, rfl⟩

theorem within_write (htarget : s.target ∈ own) (bytes : ByteArray) :
    (s.write bytes).Within own s.SameFile := by
  refine within_bind (within_check _) fun _ _ => ?_
  refine within_bind (within_ofStore (Script.within_request htarget fun _ => trivial))
    fun _ _ => ?_
  exact within_pure ⟨rfl, rfl⟩

theorem within_commit (hbackup : s.backup ∈ own) : s.commit.Within own fun _ => True := by
  refine within_bind (within_check _) fun _ _ => ?_
  refine within_bind (within_ofStore (Script.within_request hbackup fun _ => trivial))
    fun _ _ => ?_
  exact within_pure trivial

theorem within_restore (htarget : s.target ∈ own) (hbackup : s.backup ∈ own) :
    s.restore.Within own fun _ => True := by
  refine within_bind (within_check _) fun _ _ => ?_
  refine within_bind (within_ofStore (Script.within_request hbackup fun _ => trivial))
    fun _ _ => ?_
  refine within_bind (within_ofStore (Script.within_request htarget fun _ => trivial))
    fun _ _ => ?_
  refine within_bind (within_ofStore (Script.within_request hbackup fun _ => trivial))
    fun _ _ => ?_
  exact within_pure trivial

end BackupSession

/-- Storing a repair is about the target and its backup only. -/
theorem within_commitRepair {own : Set Path} {target backup : Path} (htarget : target ∈ own)
    (hbackup : backup ∈ own) (former repaired : Text) :
    (commitRepair target backup former repaired).Within own fun _ => True := by
  refine EditScript.within_bind
    (EditScript.within_ofStore (Script.within_request htarget fun _ => trivial)) fun onDisk _ => ?_
  split
  · exact EditScript.within_refuse _
  · refine EditScript.within_bind (BackupSession.within_snapshot htarget hbackup) ?_
    rintro session ⟨hsame, hsame'⟩
    have ht : session.target ∈ own := hsame ▸ htarget
    have hb : session.backup ∈ own := hsame' ▸ hbackup
    refine EditScript.within_bind (EditScript.within_lift (BackupSession.within_write ht _)) ?_
    intro outcome houtcome
    cases outcome with
    | error why =>
        refine EditScript.within_bind (BackupSession.within_restore ht hb) fun _ _ => ?_
        exact EditScript.within_throw why
    | ok written =>
        obtain ⟨hwritten, hwritten'⟩ := houtcome written rfl
        have ht' : written.target ∈ own := hwritten ▸ ht
        have hb' : written.backup ∈ own := hwritten' ▸ hb
        refine EditScript.within_bind
          (EditScript.within_lift (Script.within_request htarget fun _ => trivial))
          fun readBack _ => ?_
        split
        · refine EditScript.within_bind (BackupSession.within_commit hb') fun _ _ => ?_
          exact EditScript.within_pure trivial
        · refine EditScript.within_bind (BackupSession.within_restore ht' hb') fun _ _ => ?_
          exact EditScript.within_pure trivial

end MarkupRepair
