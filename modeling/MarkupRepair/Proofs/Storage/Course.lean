import Mathlib
import MarkupRepair.Proofs.Storage.Session

/-!
# Sessions over any sequence of steps

The steps of a backup session may be tried in any order and any number of times, on a store that may
fail in every call as long as it reports it. While a session is open its backup holds what the
target held when the snapshot was made, a session that went back has put exactly that in its place
again, and a session that is over refuses every further step.

A restore that fails half way leaves its session where it was, but not the target: what has been
written may be gone. Keeping the repair is still possible then and removes the backup, so the target
is known to hold what was last written only when no restore that failed has changed it.
-/

namespace MarkupRepair

/-- A step of a backup session. -/
inductive SessionStep where
  /-- Make the backup. -/
  | snapshot
  /-- Write the target. -/
  | write (bytes : ByteArray)
  /-- Keep what has been written. -/
  | commit
  /-- Put the backup back. -/
  | restore
  deriving DecidableEq

namespace SessionStep

/-- The state to which a step leads. -/
def aim : SessionStep → BackupState
  | .snapshot => .backedUp
  | .write _ => .written
  | .commit => .committed
  | .restore => .restored

/-- A step on a session. -/
def on : SessionStep → BackupSession → EditScript BackupSession
  | .snapshot, s => s.snapshot
  | .write bytes, s => s.write bytes
  | .commit, s => s.commit
  | .restore, s => s.restore

/-- A step to a state that the session cannot move to is refused before it asks for anything. -/
theorem on_eq_refuse {step : SessionStep} {s : BackupSession}
    (h : s.state.canMoveTo step.aim = false) :
    step.on s = EditScript.refuse (.illegalTransition s.state step.aim) := by
  obtain ⟨next, hnext⟩ : ∃ next, step.on s = s.check step.aim >>= next := by
    cases step <;> exact ⟨_, rfl⟩
  rw [hnext, BackupSession.check, h]
  rfl

end SessionStep

/-- How far a session has come, with what it has done on the way. -/
structure Course where
  /-- The session. -/
  session : BackupSession
  /-- The store and the calls made on it. -/
  store : Logged Memory
  /-- What the target held when the snapshot was made. -/
  original : Option ByteArray := none
  /-- What the last write that succeeded was to write. -/
  written : Option ByteArray := none
  /-- Whether a restore that failed since then has changed what the target holds. -/
  disturbed : Prop := False

namespace Course

/-- A session that has just begun on a store. -/
def start (m : Memory) (target backup : Path) : Course where
  session := ⟨target, backup, .untouched⟩
  store := ⟨m, []⟩

/-- What a step answers, and the store after it. -/
def answer (faults : List Fault) (c : Course) (step : SessionStep) :
    Except EditError BackupSession × Logged Memory :=
  (Memory.host.faulty faults).run (step.on c.session).run c.store

/-- The course after a step that succeeds. -/
def advance (c : Course) (step : SessionStep) (session : BackupSession) (store : Logged Memory) :
    Course :=
  match step with
  | .snapshot => { c with session, store, original := c.store.inner.get? c.session.target }
  | .write bytes => { c with session, store, written := some bytes, disturbed := False }
  | _ => { c with session, store }

/-- The course after a step that fails: the session stays as it was, whatever has become of the
store. -/
def remain (c : Course) (step : SessionStep) (store : Logged Memory) : Course :=
  match step with
  | .restore =>
      let changed := store.inner.get? c.session.target ≠ c.store.inner.get? c.session.target
      { c with store, disturbed := c.disturbed ∨ changed }
  | _ => { c with store }

/-- Try a step. -/
def attempt (faults : List Fault) (c : Course) (step : SessionStep) : Course :=
  let answer := c.answer faults step
  match answer.1 with
  | .ok session => c.advance step session answer.2
  | .error _ => c.remain step answer.2

/-- The course of a session over a sequence of steps. -/
def follow (faults : List Fault) (m : Memory) (target backup : Path) (steps : List SessionStep) :
    Course :=
  steps.foldl (attempt faults) (start m target backup)

/-- What holds in each state of a session that began on a store `m`. -/
inductive Stands (m : Memory) (target backup : Path) : Course → Prop where
  /-- Nothing has been done to the store. -/
  | untouched {log : List (StoreOperation × Path)} {original written : Option ByteArray}
      {disturbed : Prop} : Stands m target backup
        ⟨⟨target, backup, .untouched⟩, ⟨m, log⟩, original, written, disturbed⟩
  /-- There was no backup, and now it holds what the target held. -/
  | backedUp {after : Memory} {log : List (StoreOperation × Path)} {o : ByteArray}
      {written : Option ByteArray} {disturbed : Prop} (hfresh : m.get? backup = none)
      (hne : backup ≠ target) (hbackup : after.get? backup = some o) : Stands m target backup
        ⟨⟨target, backup, .backedUp⟩, ⟨after, log⟩, some o, written, disturbed⟩
  /-- The target has been written, and the backup still holds what it held before. -/
  | written {after : Memory} {log : List (StoreOperation × Path)} {o bytes : ByteArray}
      {disturbed : Prop} (hfresh : m.get? backup = none) (hne : backup ≠ target)
      (hbackup : after.get? backup = some o)
      (htarget : ¬disturbed → after.get? target = some bytes) : Stands m target backup
        ⟨⟨target, backup, .written⟩, ⟨after, log⟩, some o, some bytes, disturbed⟩
  /-- The backup is gone, and the target is as it was in the state before. -/
  | committed {after : Memory} {log : List (StoreOperation × Path)} {o bytes : ByteArray}
      {disturbed : Prop} (hfresh : m.get? backup = none)
      (htarget : ¬disturbed → after.get? target = some bytes)
      (hbackup : after.get? backup = none) : Stands m target backup
        ⟨⟨target, backup, .committed⟩, ⟨after, log⟩, some o, some bytes, disturbed⟩
  /-- The target holds again what it held, and the backup is gone. -/
  | restored {after : Memory} {log : List (StoreOperation × Path)} {o : ByteArray}
      {written : Option ByteArray} {disturbed : Prop} (hfresh : m.get? backup = none)
      (htarget : after.get? target = some o) (hbackup : after.get? backup = none) :
      Stands m target backup
        ⟨⟨target, backup, .restored⟩, ⟨after, log⟩, some o, written, disturbed⟩

variable {faults : List Fault} {m : Memory} {target backup : Path} {c : Course}

/-- A refused step changes nothing. -/
theorem remain_self (c : Course) (step : SessionStep) (log : List (StoreOperation × Path)) :
    c.remain step ⟨c.store.inner, log⟩ = { c with store := ⟨c.store.inner, log⟩ } := by
  cases step with
  | restore => simp [remain]
  | _ => rfl

theorem Stands.with_log (h : c.Stands m target backup) (log : List (StoreOperation × Path)) :
    Stands m target backup { c with store := ⟨c.store.inner, log⟩ } := by
  cases h with
  | untouched => exact .untouched
  | backedUp hfresh hne hbackup => exact .backedUp hfresh hne hbackup
  | written hfresh hne hbackup htarget => exact .written hfresh hne hbackup htarget
  | committed hfresh htarget hbackup => exact .committed hfresh htarget hbackup
  | restored hfresh htarget hbackup => exact .restored hfresh htarget hbackup

/-- What the backup holds has been put in place of the target. -/
theorem Stands.of_restore {held : Memory} {log : List (StoreOperation × Path)} {o : ByteArray}
    {written : Option ByteArray} {disturbed : Prop} (hfresh : m.get? backup = none)
    (hne : backup ≠ target) : Stands m target backup ⟨⟨target, backup, .restored⟩,
      ⟨(held.put target o).erase backup, log⟩, some o, written, disturbed⟩ := by
  refine .restored hfresh ?_ (Memory.get?_erase_self _ _)
  rw [Memory.get?_erase_of_ne hne.symm, Memory.get?_put_self]

/-- What a step that succeeds is to lead to. -/
def Reaches (c : Course) (m : Memory) (target backup : Path) (step : SessionStep)
    (session : BackupSession) (after : Memory) : Prop :=
  session.state = step.aim ∧ ∀ log, Stands m target backup (c.advance step session ⟨after, log⟩)

/-- What a step that fails is to leave: only a step that the store fails to do can change the
store. -/
def Leaves (c : Course) (m : Memory) (target backup : Path) (step : SessionStep)
    (why : EditError) (after : Memory) : Prop :=
  (why.isRefusal = true → after = c.store.inner) ∧
    ∀ log, Stands m target backup (c.remain step ⟨after, log⟩)

theorem Stands.leaves_unchanged (h : c.Stands m target backup) (step : SessionStep)
    (why : EditError) : c.Leaves m target backup step why c.store.inner := by
  refine ⟨fun _ => rfl, fun log => ?_⟩
  rw [remain_self]
  exact h.with_log log

theorem leaves_runtime {step : SessionStep} {after : Memory} (why : Failure)
    (h : ∀ log, Stands m target backup (c.remain step ⟨after, log⟩)) :
    c.Leaves m target backup step (.runtime why) after :=
  ⟨nofun, h⟩

/-- A snapshot makes a backup of what the target holds, where there is none. -/
theorem Stands.ensures_snapshot (h : c.Stands m target backup)
    (hmove : c.session.state.canMoveTo .backedUp = true) :
    c.session.snapshot.Ensures Memory.mayFail (fun _ => True)
      (c.Reaches m target backup .snapshot) (c.Leaves m target backup .snapshot)
      c.store.inner := by
  have hsame := h.leaves_unchanged .snapshot
  cases h with
  | untouched =>
      refine BackupSession.ensures_snapshot trivial hsame fun hnone bytes hbytes => ?_
      have hne : backup ≠ target := by
        rintro rfl
        rw [hnone] at hbytes
        cases hbytes
      refine ⟨trivial, rfl, fun log => ?_⟩
      simp only [advance, hbytes]
      exact .backedUp hnone hne (Memory.get?_put_self _ _ _)
  | _ => cases hmove

/-- A write changes the target and not the backup, also when it fails half way. -/
theorem Stands.ensures_write (h : c.Stands m target backup)
    (hmove : c.session.state.canMoveTo .written = true) (bytes : ByteArray) :
    (c.session.write bytes).Ensures Memory.mayFail (fun _ => True)
      (c.Reaches m target backup (.write bytes)) (c.Leaves m target backup (.write bytes))
      c.store.inner := by
  have hsame := h.leaves_unchanged (.write bytes)
  cases h with
  | @backedUp held _ o _ _ hfresh hne hbackup =>
      have hput : ∀ stored, (held.put target stored).get? backup = some o :=
        fun stored => (Memory.get?_put_of_ne hne held stored).trans hbackup
      refine BackupSession.ensures_write ?_ ⟨trivial, fun why => hsame _⟩ fun stored =>
        ⟨trivial, fun why => leaves_runtime why fun log => .backedUp hfresh hne (hput stored)⟩
      rintro stored rfl
      exact ⟨trivial, rfl, fun log =>
        .written hfresh hne (hput _) fun _ => Memory.get?_put_self _ _ _⟩
  | _ => cases hmove

/-- Keeping what has been written removes the backup and nothing else. -/
theorem Stands.ensures_commit (h : c.Stands m target backup)
    (hmove : c.session.state.canMoveTo .committed = true) :
    c.session.commit.Ensures Memory.mayFail (fun _ => True)
      (c.Reaches m target backup .commit) (c.Leaves m target backup .commit)
      c.store.inner := by
  have hsame := h.leaves_unchanged .commit
  cases h with
  | written hfresh hne hbackup htarget =>
      refine BackupSession.ensures_commit trivial (fun why => hsame _) ⟨trivial, rfl, fun log =>
        .committed hfresh (fun hkept => ?_) (Memory.get?_erase_self _ _)⟩
      rw [Memory.get?_erase_of_ne hne.symm, htarget hkept]
  | _ => cases hmove

/-- Going back puts the backup in place of the target, or it fails half way and leaves the backup. A
restore that fails in this way may have changed what was written. -/
theorem Stands.ensures_restore (h : c.Stands m target backup)
    (hmove : c.session.state.canMoveTo .restored = true) :
    c.session.restore.Ensures Memory.mayFail (fun _ => True)
      (c.Reaches m target backup .restore) (c.Leaves m target backup .restore)
      c.store.inner := by
  have hsame := h.leaves_unchanged .restore
  cases h with
  | @backedUp held _ o _ _ hfresh hne hbackup =>
      have hput : ∀ stored, (held.put target stored).get? backup = some o :=
        fun stored => (Memory.get?_put_of_ne hne held stored).trans hbackup
      refine BackupSession.ensures_restore rfl trivial (fun why => hsame _) (fun stored =>
        ⟨trivial, fun why => leaves_runtime why fun log => .backedUp hfresh hne (hput stored)⟩) ?_
      rintro former hformer stored rfl
      obtain rfl := Option.some.inj (hformer.symm.trans hbackup)
      exact ⟨trivial, rfl, fun log => .of_restore hfresh hne⟩
  | @written held _ o _ _ hfresh hne hbackup htarget =>
      have hput : ∀ stored, (held.put target stored).get? backup = some o :=
        fun stored => (Memory.get?_put_of_ne hne held stored).trans hbackup
      refine BackupSession.ensures_restore rfl trivial (fun why => hsame _) (fun stored =>
        ⟨trivial, fun why => leaves_runtime why fun log =>
          .written hfresh hne (hput stored) fun hkept => ?_⟩) ?_
      · rw [not_or, not_not] at hkept
        exact hkept.2.trans (htarget hkept.1)
      · rintro former hformer stored rfl
        obtain rfl := Option.some.inj (hformer.symm.trans hbackup)
        exact ⟨trivial, rfl, fun log => .of_restore hfresh hne⟩
  | _ => cases hmove

/-- A step of a session that stands somewhere leads to where a session may stand, or it fails and
leaves the session standing. -/
theorem Stands.ensures_on (h : c.Stands m target backup) (step : SessionStep) :
    (step.on c.session).Ensures Memory.mayFail (fun _ => True) (c.Reaches m target backup step)
      (c.Leaves m target backup step) c.store.inner := by
  by_cases hmove : c.session.state.canMoveTo step.aim = true
  case neg =>
    rw [SessionStep.on_eq_refuse (Bool.not_eq_true _ ▸ hmove), EditScript.ensures_refuse]
    exact h.leaves_unchanged step _
  case pos =>
    cases step with
    | snapshot => exact h.ensures_snapshot hmove
    | write bytes => exact h.ensures_write hmove bytes
    | commit => exact h.ensures_commit hmove
    | restore => exact h.ensures_restore hmove

/-- What a step ensures holds of its answer. -/
theorem answer_of_ensures (hfaults : ∀ f ∈ faults, f.IsLoud) {step : SessionStep}
    {wanted : BackupSession → Memory → Prop} {failed : EditError → Memory → Prop}
    (h : (step.on c.session).Ensures Memory.mayFail (fun _ => True) wanted failed c.store.inner) :
    (∀ session, (c.answer faults step).1 = .ok session →
      wanted session (c.answer faults step).2.inner) ∧
    (∀ why, (c.answer faults step).1 = .error why → failed why (c.answer faults step).2.inner) := by
  have hmay : ∀ call ∈ (Memory.host.faulty faults).calls (step.on c.session).run c.store,
      Memory.mayFail call.request call.before.inner
        ((Memory.host.faulty faults).answer call.request call.before).1
        ((Memory.host.faulty faults).after call).inner :=
    fun call _ => Memory.mayFail_faulty hfaults call.request call.before
  have hrun := (Host.run_of_ensures hmay h).1
  refine ⟨fun session hsession => ?_, fun why hwhy => ?_⟩
  · rw [answer] at hsession
    rw [hsession] at hrun
    exact hrun
  · rw [answer] at hwhy
    rw [hwhy] at hrun
    exact hrun

theorem attempt_of_ok {step : SessionStep} {session : BackupSession}
    (h : (c.answer faults step).1 = .ok session) :
    c.attempt faults step = c.advance step session (c.answer faults step).2 := by
  simp only [Course.attempt, h]

theorem attempt_of_error {step : SessionStep} {why : EditError}
    (h : (c.answer faults step).1 = .error why) :
    c.attempt faults step = c.remain step (c.answer faults step).2 := by
  simp only [Course.attempt, h]

/-- A session that stands somewhere still does after a step. -/
theorem Stands.attempt (hfaults : ∀ f ∈ faults, f.IsLoud) (h : c.Stands m target backup)
    (step : SessionStep) : (c.attempt faults step).Stands m target backup := by
  have hanswer := answer_of_ensures hfaults (h.ensures_on step)
  cases hresult : (c.answer faults step).1 with
  | ok session =>
      rw [attempt_of_ok hresult]
      exact (hanswer.1 session hresult).2 _
  | error why =>
      rw [attempt_of_error hresult]
      exact (hanswer.2 why hresult).2 _

/-- A session stands somewhere after any sequence of steps. -/
theorem stands_follow (hfaults : ∀ f ∈ faults, f.IsLoud) (steps : List SessionStep) :
    (follow faults m target backup steps).Stands m target backup := by
  -- A course is a fold from the left, so the induction is on the last step.
  induction steps using List.reverseRecOn with
  | nil => exact .untouched
  | append_singleton steps step ih =>
      rw [follow, List.foldl_append]
      exact ih.attempt hfaults step

/-- A step that fails leaves the session as it was, and the store as well if it was refused. -/
theorem Stands.kept_of_error (hfaults : ∀ f ∈ faults, f.IsLoud) (h : c.Stands m target backup)
    {step : SessionStep} {why : EditError} (herror : (c.answer faults step).1 = .error why) :
    (c.attempt faults step).session = c.session ∧
      (why.isRefusal = true → (c.attempt faults step).store.inner = c.store.inner) := by
  have hanswer := (answer_of_ensures hfaults (h.ensures_on step)).2 why herror
  rw [attempt_of_error herror]
  cases step <;> exact ⟨rfl, hanswer.1⟩

/-- A step to a state that the session cannot move to is refused. -/
theorem answer_of_not_canMoveTo (step : SessionStep)
    (h : c.session.state.canMoveTo step.aim = false) :
    (c.answer faults step).1 = .error (.refused (.illegalTransition c.session.state step.aim)) := by
  rw [answer, SessionStep.on_eq_refuse h]
  rfl

/-- An untouched session has not changed the store. -/
theorem Stands.inner_of_untouched (h : c.Stands m target backup)
    (hstate : c.session.state = .untouched) : c.store.inner = m := by
  cases h with
  | untouched => rfl
  | _ => cases hstate

/-- An open session has a backup of what the target held at the snapshot. -/
theorem Stands.backup_of_open (h : c.Stands m target backup)
    (hstate : c.session.state = .backedUp ∨ c.session.state = .written) :
    backup ≠ target ∧ ∃ o, c.original = some o ∧ c.store.inner.get? backup = some o := by
  cases h with
  | backedUp _ hne hbackup => exact ⟨hne, _, rfl, hbackup⟩
  | written _ hne hbackup _ => exact ⟨hne, _, rfl, hbackup⟩
  | _ => rcases hstate with hstate | hstate <;> cases hstate

/-- A session that went back has put what the target held in place and has removed the backup. -/
theorem Stands.target_of_restored (h : c.Stands m target backup)
    (hstate : c.session.state = .restored) : c.store.inner.get? backup = none ∧
      ∃ o, c.original = some o ∧ c.store.inner.get? target = some o := by
  cases h with
  | restored _ htarget hbackup => exact ⟨hbackup, _, rfl, htarget⟩
  | _ => cases hstate

/-- Nothing happens to a store with an old backup. -/
theorem Stands.inner_of_held (h : c.Stands m target backup) (hheld : m.get? backup ≠ none) :
    c.store.inner = m := by
  cases h with
  | untouched => rfl
  | backedUp hfresh | written hfresh | committed hfresh | restored hfresh =>
      exact absurd hfresh hheld

/-- Whatever steps are tried on a session, on a store that reports its failures: an untouched
session has not changed the store, an open one has a backup of what the target held at the snapshot,
and a session that went back has put it in place and removed the backup. Nothing happens to a store
with an old backup. A step that fails does not move the session, a refused one does not change the
store either, and a session that is over refuses every step. -/
theorem follow_kept (m : Memory) (target backup : Path) (faults : List Fault)
    (hfaults : ∀ f ∈ faults, f.IsLoud) (steps : List SessionStep) :
    let c := follow faults m target backup steps
    (c.session.state = .untouched → c.store.inner = m) ∧
    (c.session.state = .backedUp ∨ c.session.state = .written → backup ≠ target ∧
      ∃ o, c.original = some o ∧ c.store.inner.get? backup = some o) ∧
    (c.session.state = .restored → c.store.inner.get? backup = none ∧
      ∃ o, c.original = some o ∧ c.store.inner.get? target = some o) ∧
    (m.get? backup ≠ none → c.store.inner = m) ∧
    (∀ step why, (c.answer faults step).1 = .error why →
      (c.attempt faults step).session = c.session ∧
        (why.isRefusal = true → (c.attempt faults step).store.inner = c.store.inner)) ∧
    (c.session.state.isTerminal = true → ∀ step, (c.answer faults step).1 =
      .error (.refused (.illegalTransition c.session.state step.aim))) := by
  intro c
  have hstands : c.Stands m target backup := stands_follow hfaults steps
  exact ⟨hstands.inner_of_untouched, hstands.backup_of_open, hstands.target_of_restored,
    hstands.inner_of_held, fun step why => hstands.kept_of_error hfaults, fun hover step =>
      answer_of_not_canMoveTo step ((BackupState.isTerminal_iff _).mp hover step.aim)⟩

/-- A write that fails half way and three restores, of which the first cannot read the backup and
the second cannot remove it, leave the target as it was at the snapshot. -/
theorem follow_kept_third_restore :
    ∃ c, c = follow [⟨.write, 0, { fail := some "disk full", keep := some 1 }⟩,
        ⟨.read, 0, { fail := some "denied" }⟩, ⟨.remove, 0, { fail := some "denied" }⟩]
      [("a.xhtml", "old".toUTF8)] "a.xhtml" "a.xhtml.bak"
      [.snapshot, .write "new".toUTF8, .restore, .commit, .restore, .restore] ∧
    c.session.state = .restored ∧ c.store.inner.get? "a.xhtml.bak" = none ∧
      ∃ o, c.original = some o ∧ c.store.inner.get? "a.xhtml" = some o := by
  refine ⟨_, rfl, rfl, (follow_kept _ _ _ _ ?_ _).2.2.1 rfl⟩
  simp [Fault.IsLoud]

/-- Keeping what has been written removes the backup of what the target held at the snapshot, and
the target holds what was last written, unless a restore that failed since then has changed it. -/
theorem Stands.of_commit (hfaults : ∀ f ∈ faults, f.IsLoud) (h : c.Stands m target backup)
    {session : BackupSession} (hsession : (c.answer faults .commit).1 = .ok session) :
    (c.attempt faults .commit).session = session ∧ session.state = .committed ∧
      (∃ o, c.original = some o ∧ c.store.inner.get? backup = some o) ∧
      (c.attempt faults .commit).store.inner.get? backup = none ∧
      ∃ bytes, c.written = some bytes ∧
        (¬c.disturbed → (c.attempt faults .commit).store.inner.get? target = some bytes) := by
  obtain ⟨hstate, hafter⟩ := (answer_of_ensures hfaults (h.ensures_on .commit)).1 session hsession
  rw [attempt_of_ok hsession]
  by_cases hmove : c.session.state.canMoveTo .committed = true
  case neg =>
    rw [Bool.not_eq_true] at hmove
    rw [answer_of_not_canMoveTo .commit hmove] at hsession
    cases hsession
  case pos =>
    have hstands := hafter (c.answer faults .commit).2.log
    cases h with
    | @written held log o bytes disturbed hfresh hne hbackup _ =>
        refine ⟨rfl, hstate, ⟨o, rfl, hbackup⟩, ?_⟩
        simp only [advance] at hstands ⊢
        generalize Course.answer faults _ _ = answer at hstands ⊢
        obtain ⟨_, ⟨after, log⟩⟩ := answer
        cases hstands with
        | committed _ htarget hgone => exact ⟨hgone, bytes, rfl, htarget⟩
        | _ => cases hstate
    | _ => cases hmove

/-- Whatever steps have been tried on a session before, when keeping what has been written succeeds,
the backup of what the target held at the snapshot is gone, and the target holds what was last
written, unless a restore has failed since then and has changed the target. -/
theorem follow_commit (m : Memory) (target backup : Path) (faults : List Fault)
    (hfaults : ∀ f ∈ faults, f.IsLoud) (steps : List SessionStep) :
    let c := follow faults m target backup steps
    let next := c.attempt faults .commit
    ∀ session, (c.answer faults .commit).1 = .ok session →
      next.session = session ∧ session.state = .committed ∧
      (∃ o, c.original = some o ∧ c.store.inner.get? backup = some o) ∧
      next.store.inner.get? backup = none ∧
      ∃ bytes, c.written = some bytes ∧
        (¬c.disturbed → next.store.inner.get? target = some bytes) :=
  fun _ hsession => (stands_follow hfaults steps).of_commit hfaults hsession

/-- After a commit and a restore that fail at their first call the commit is tried again and keeps
what has been written. -/
theorem follow_commit_second_try :
    ∃ faults c session, faults = [⟨.remove, 0, { fail := some "denied" }⟩,
        ⟨.read, 0, { fail := some "denied" }⟩] ∧ (∀ f ∈ faults, f.IsLoud) ∧
      c = follow faults [("a.xhtml", "old".toUTF8)] "a.xhtml" "a.xhtml.bak"
        [.snapshot, .write "new".toUTF8, .commit, .restore] ∧
      (c.answer faults .commit).1 = .ok session ∧ ¬c.disturbed ∧
      ∃ bytes, c.written = some bytes ∧
        (c.attempt faults .commit).store.inner.get? "a.xhtml" = some bytes := by
  have hfaults : ∀ f ∈ ([⟨.remove, 0, { fail := some "denied" }⟩,
      ⟨.read, 0, { fail := some "denied" }⟩] : List Fault), f.IsLoud := by
    simp [Fault.IsLoud]
  obtain ⟨-, -, -, -, bytes, hwritten, htarget⟩ := follow_commit [("a.xhtml", "old".toUTF8)]
    "a.xhtml" "a.xhtml.bak" _ hfaults [.snapshot, .write "new".toUTF8, .commit, .restore] _ rfl
  have hkept : ¬(False ∨ some "new".toUTF8 ≠ some "new".toUTF8) := by
    simp
  exact ⟨_, _, _, rfl, hfaults, rfl, rfl, hkept, bytes, hwritten, htarget hkept⟩

/-- A restore fails in the middle of its write and leaves an empty target. The session lets what has
been written be kept all the same, and removes the only copy of what the target held. -/
theorem follow_commit_lost :
    ∃ faults c session, faults = [⟨.write, 1, { fail := some "disk full", keep := some 0 }⟩] ∧
      (∀ f ∈ faults, f.IsLoud) ∧ c = follow faults [("a.xhtml", "old".toUTF8)] "a.xhtml"
        "a.xhtml.bak" [.snapshot, .write "new".toUTF8, .restore] ∧
      c.written = some "new".toUTF8 ∧ (c.answer faults .commit).1 = .ok session ∧
      session.state = .committed ∧
      (c.attempt faults .commit).store.inner = [("a.xhtml", ByteArray.empty)] := by
  have hfaults : ∀ f ∈ ([⟨.write, 1, { fail := some "disk full", keep := some 0 }⟩] : List Fault),
      f.IsLoud := by
    simp [Fault.IsLoud]
  exact ⟨_, _, _, rfl, hfaults, rfl, rfl, rfl, rfl, rfl⟩

end Course

end MarkupRepair
