import MarkupRepair.Proofs.Run.Queries
import MarkupRepair.Proofs.Storage.Conduct

/-!
# The rules of a run and its lock

A run keeps to rules, whatever it is answered. It asks for the lock only if it may write, and
before anything else but the time; without the lock it only looks, and once the lock was refused it
asks for nothing more. While it holds the lock it never removes the lock file under another name:
a backup is removed only where nothing stood while the lock file was there. Every way in which the
run may end gives the lock back.
-/

namespace MarkupRepair

/-- A request with what was answered. -/
structure Exchange where
  /-- The request. -/
  request : Request
  /-- The answer. -/
  answer : request.Answer

/-- Whether a lock was got and not given back, from what was answered so far, the latest first. -/
def holdsLock (lock : Path) : List Exchange → Bool
  | [] => false
  | ⟨.claim path, .ok ()⟩ :: earlier => path == lock || holdsLock lock earlier
  | ⟨.release path, ()⟩ :: earlier => path != lock && holdsLock lock earlier
  | _ :: earlier => holdsLock lock earlier

/-- Whether a lock was asked for and not got. -/
def LockRefused (answered : List Exchange) : Prop :=
  ∃ path why, ⟨.claim path, .error why⟩ ∈ answered

/-- What the rules of a run depend on. -/
structure LockRules where
  /-- Whether the run may write documents. -/
  writes : Bool
  /-- The lock file. -/
  lock : Path
  /-- The paths that lead to the lock file. -/
  leads : Path → Prop

namespace LockRules

variable (rules : LockRules)

/-- What a run may ask for after what was answered so far. -/
def Permits (answered : List Exchange) : Request → Prop
  | .claim path => path = rules.lock ∧ rules.writes = true ∧ ∀ e ∈ answered, e.request = .now
  | .release path => path = rules.lock ∧ holdsLock rules.lock answered = true
  | .write _ _ | .copy _ _ => holdsLock rules.lock answered = true
  | .remove path => ¬ rules.leads path ∧ holdsLock rules.lock answered = true
  | .makeDirectory _ | .publish _ _ => False
  | .read _ | .isPresent _ | .kindOf _ | .list _ | .now => True

/-- Whether all that was asked was permitted, and nothing was asked after a refusal. -/
def Kept : List Exchange → Prop
  | [] => True
  | e :: earlier => rules.Permits earlier e.request ∧ ¬ LockRefused earlier ∧ Kept earlier

/-- Whether an answer tells the truth about the lock file, which stands while it is held. -/
def Truthful (answered : List Exchange) : (r : Request) → r.Answer → Prop
  | .isPresent path, found => rules.leads path → holdsLock rules.lock answered = true → found = true
  | _, _ => True

/-- What is answered is added to what was answered so far. -/
def recorded : Conduct (List Exchange) := fun r answered answer after =>
  after = ⟨r, answer⟩ :: answered ∧ rules.Truthful answered r answer

/-- A run that has kept to the rules, was not refused the lock, and holds it or not. -/
structure At (held : Bool) (answered : List Exchange) : Prop where
  /-- The rules were kept. -/
  kept : rules.Kept answered
  /-- The lock was not refused. -/
  unrefused : ¬ LockRefused answered
  /-- Whether the lock is held. -/
  holds : holdsLock rules.lock answered = held

/-- Whether a script keeps to the rules, leaves the lock as it is and ends with a value as wanted,
whatever it is answered. -/
def Keeps {α : Type} (held : Bool) (wanted : α → Prop) (script : Script α) : Prop :=
  ∀ answered, rules.At held answered →
    script.Ensures rules.recorded rules.Kept (fun value after => rules.At held after ∧ wanted value)
      answered

variable {rules} {α β ε : Type} {held : Bool} {answered : List Exchange}

/-- A permitted request that is not about the lock leaves the lock as it is. -/
theorem At.cons (h : rules.At held answered) {r : Request} (hr : rules.Permits answered r)
    (hclaim : ∀ path, r ≠ .claim path) (hrelease : ∀ path, r ≠ .release path)
    (answer : r.Answer) : rules.At held (⟨r, answer⟩ :: answered) where
  kept := ⟨hr, h.unrefused, h.kept⟩
  unrefused := by
    rintro ⟨path, why, hmem⟩
    obtain heq | hmem := List.mem_cons.mp hmem
    · exact hclaim path (congrArg Exchange.request heq).symm
    · exact h.unrefused ⟨path, why, hmem⟩
  holds := by
    rw [← h.holds]
    cases r with
    | claim path => exact absurd rfl (hclaim path)
    | release path => exact absurd rfl (hrelease path)
    | _ => rfl

/-- Looking leaves the lock as it is. -/
theorem At.query (h : rules.At held answered) {r : Request} (hr : r.IsQuery) (answer : r.Answer) :
    rules.At held (⟨r, answer⟩ :: answered) := by
  refine h.cons ?_ ?_ ?_ answer
  · cases r with
    | read | isPresent | kindOf | list | now => trivial
    | _ => exact hr.elim
  · rintro path rfl
    exact hr
  · rintro path rfl
    exact hr

variable {wanted : α → Prop}

theorem keeps_pure {value : α} (h : wanted value) :
    rules.Keeps held wanted (pure value : Script α) :=
  fun _ hat => ⟨hat, h⟩

theorem keeps_bind {script : Script β} {f : β → Script α} {between : β → Prop}
    (h : rules.Keeps held between script)
    (hf : ∀ value, between value → rules.Keeps held wanted (f value)) :
    rules.Keeps held wanted (script >>= f) := by
  intro answered hat
  rw [Script.ensures_bind]
  refine (h answered hat).mono ?_
  rintro value after ⟨hat, hvalue⟩
  exact hf value hvalue after hat

/-- A script that only looks leaves the lock as it is. -/
theorem keeps_of_queries {script : Script α} (h : script.Queries) :
    rules.Keeps held (fun _ => True) script := by
  intro answered hat
  induction script generalizing answered with
  | done value => exact ⟨hat, trivial⟩
  | ask r next ih =>
      rintro answer after ⟨rfl, -⟩
      have hat' := hat.query h.1 answer
      exact ⟨hat'.kept, ih answer (h.2 answer) _ hat'⟩

/-- A run that holds the lock may ask for anything but the lock and the removal of a path that
leads to its file. -/
theorem keeps_request {r : Request} (h : ∀ answered, rules.At true answered →
      rules.Permits answered r) (hclaim : ∀ path, r ≠ .claim path)
    (hrelease : ∀ path, r ≠ .release path) :
    rules.Keeps true (fun _ => True) (Script.request r) := by
  rintro answered hat answer after ⟨rfl, -⟩
  have hat' := hat.cons (h answered hat) hclaim hrelease answer
  exact ⟨hat'.kept, hat', trivial⟩

theorem keeps_write (path : Path) (bytes : ByteArray) :
    rules.Keeps true (fun _ => True) (Script.request (.write path bytes)) :=
  keeps_request (fun _ hat => hat.holds) (fun _ => Request.noConfusion)
    (fun _ => Request.noConfusion)

theorem keeps_copy (source target : Path) :
    rules.Keeps true (fun _ => True) (Script.request (.copy source target)) :=
  keeps_request (fun _ hat => hat.holds) (fun _ => Request.noConfusion)
    (fun _ => Request.noConfusion)

theorem keeps_remove {path : Path} (h : ¬ rules.leads path) :
    rules.Keeps true (fun _ => True) (Script.request (.remove path)) :=
  keeps_request (fun _ hat => ⟨h, hat.holds⟩) (fun _ => Request.noConfusion)
    (fun _ => Request.noConfusion)

theorem keeps_read (path : Path) :
    rules.Keeps held (fun _ => True) (Script.request (.read path)) :=
  keeps_of_queries (Script.queries_request trivial)

/-- While the lock is held, nothing stands only where no path leads to its file. -/
theorem keeps_isPresent (path : Path) :
    rules.Keeps true (fun found => found = false → ¬ rules.leads path)
      (Script.request (.isPresent path)) := by
  rintro answered hat found after ⟨rfl, htrue⟩
  have hat' : rules.At true (⟨.isPresent path, found⟩ :: answered) :=
    hat.query (r := .isPresent path) trivial found
  refine ⟨hat'.kept, hat', ?_⟩
  intro hfound hleads
  rw [htrue hleads hat.holds] at hfound
  cases hfound

/-- The same for scripts that may end early. -/
def EndsAs (wanted : α → Prop) (result : Except ε α) : Prop :=
  ∀ value, result = .ok value → wanted value

theorem keeps_run_pure {value : α} (h : wanted value) :
    rules.Keeps held (EndsAs wanted) (pure value : ExceptT ε Script α).run := by
  refine keeps_pure ?_
  rintro _ ⟨⟩
  exact h

theorem keeps_run_throw (why : ε) :
    rules.Keeps held (EndsAs wanted) (throw why : ExceptT ε Script α).run := by
  refine keeps_pure ?_
  rintro _ ⟨⟩

theorem keeps_run_bind {x : ExceptT ε Script β} {f : β → ExceptT ε Script α} {between : β → Prop}
    (h : rules.Keeps held (EndsAs between) x.run)
    (hf : ∀ value, between value → rules.Keeps held (EndsAs wanted) (f value).run) :
    rules.Keeps held (EndsAs wanted) (x >>= f).run := by
  rw [ExceptT.run_bind]
  refine keeps_bind h ?_
  intro result hresult
  cases result with
  | ok value => exact hf value (hresult value rfl)
  | error why => exact keeps_run_throw why

theorem keeps_run_lift {script : Script α} (h : rules.Keeps held wanted script) :
    rules.Keeps held (EndsAs wanted) (ExceptT.lift script : ExceptT ε Script α).run := by
  rw [ExceptT.run_lift, ← bind_pure_comp]
  refine keeps_bind h ?_
  intro value hvalue
  refine keeps_pure ?_
  rintro _ ⟨⟩
  exact hvalue

theorem keeps_run_ofStore {script : Script (Except Failure α)}
    (h : rules.Keeps held (fun _ => True) script) :
    rules.Keeps held (EndsAs fun _ => True) (EditScript.ofStore script).run := by
  rw [EditScript.ofStore, ExceptT.run_mk]
  exact keeps_bind h fun _ _ => keeps_pure fun _ _ => trivial

section Session

variable {s : BackupSession}

theorem keeps_check (next : BackupState) :
    rules.Keeps held (EndsAs fun _ => True) (s.check next).run := by
  unfold BackupSession.check
  split
  · exact keeps_run_pure trivial
  · exact keeps_run_throw _

/-- A session that has a backup has it where no path leads to the lock file. -/
theorem keeps_snapshot : rules.Keeps true (EndsAs fun session : BackupSession =>
    ¬ rules.leads session.backup) s.snapshot.run := by
  refine keeps_run_bind (keeps_check _) fun _ _ => ?_
  refine keeps_run_bind (keeps_run_lift (keeps_isPresent s.backup)) fun stale hstale => ?_
  cases stale with
  | true => exact keeps_run_throw _
  | false =>
      refine keeps_run_bind (keeps_run_ofStore (keeps_copy _ _)) fun _ _ => ?_
      exact keeps_run_pure (hstale rfl)

theorem keeps_session_write (h : ¬ rules.leads s.backup) (bytes : ByteArray) :
    rules.Keeps true (EndsAs fun session : BackupSession => ¬ rules.leads session.backup)
      (s.write bytes).run := by
  refine keeps_run_bind (keeps_check _) fun _ _ => ?_
  refine keeps_run_bind (keeps_run_ofStore (keeps_write _ _)) fun _ _ => ?_
  exact keeps_run_pure h

theorem keeps_commit (h : ¬ rules.leads s.backup) :
    rules.Keeps true (EndsAs fun _ => True) s.commit.run := by
  refine keeps_run_bind (keeps_check _) fun _ _ => ?_
  refine keeps_run_bind (keeps_run_ofStore (keeps_remove h)) fun _ _ => ?_
  exact keeps_run_pure trivial

theorem keeps_restore (h : ¬ rules.leads s.backup) :
    rules.Keeps true (EndsAs fun _ => True) s.restore.run := by
  refine keeps_run_bind (keeps_check _) fun _ _ => ?_
  refine keeps_run_bind (keeps_run_ofStore (keeps_read _)) fun former _ => ?_
  refine keeps_run_bind (keeps_run_ofStore (keeps_write _ _)) fun _ _ => ?_
  refine keeps_run_bind (keeps_run_ofStore (keeps_remove h)) fun _ _ => ?_
  exact keeps_run_pure trivial

end Session

/-- Storing a repair under the lock leaves the lock as it is. -/
theorem keeps_commitRepair (target backup : Path) (former repaired : Text) :
    rules.Keeps true (EndsAs fun _ => True) (commitRepair target backup former repaired).run := by
  refine keeps_run_bind (keeps_run_ofStore (keeps_read target)) fun onDisk _ => ?_
  split
  · exact keeps_run_throw _
  · refine keeps_run_bind keeps_snapshot fun session hsession => ?_
    refine keeps_run_bind (keeps_run_lift (keeps_session_write hsession _)) ?_
    intro outcome hwritten
    cases outcome with
    | error why =>
        exact keeps_run_bind (keeps_restore hsession) fun _ _ => keeps_run_throw why
    | ok written =>
        have hbackup := hwritten written rfl
        refine keeps_run_bind (keeps_run_lift (keeps_read target)) fun readBack _ => ?_
        split
        · exact keeps_run_bind (keeps_commit hbackup) fun _ _ => keeps_run_pure trivial
        · exact keeps_run_bind (keeps_restore hbackup) fun _ _ => keeps_run_pure trivial

/-- Processing a document under the lock leaves the lock as it is. -/
theorem keeps_processDocument (settings : RunSettings) (path : Path) :
    rules.Keeps true (fun _ => True) (processDocument settings path) := by
  rw [processDocument_eq]
  refine keeps_bind (keeps_of_queries (queries_readDocument _)) fun answer _ => ?_
  cases answer with
  | error why => exact keeps_pure trivial
  | ok t =>
      dsimp only
      split
      · exact keeps_pure trivial
      · exact keeps_bind (keeps_commitRepair _ _ _ _) fun _ _ => keeps_pure trivial

theorem keeps_processDocuments (settings : RunSettings) (cancelled : Bool) (paths : List Path) :
    rules.Keeps true (fun _ => True) (processDocuments settings cancelled paths) := by
  induction paths generalizing cancelled with
  | nil => exact keeps_pure trivial
  | cons path rest ih =>
      rw [processDocuments_cons]
      have hdocument :
          rules.Keeps true (fun _ => True) (processUnless settings cancelled path) := by
        unfold processUnless
        split
        · exact keeps_pure trivial
        · exact keeps_processDocument settings path
      exact keeps_bind hdocument fun _ _ => keeps_bind (ih _) fun _ _ => keeps_pure trivial

/-- Finding and processing documents under the lock leaves the lock as it is, also when they cannot
be found. -/
theorem keeps_runDocuments (settings : RunSettings) (source : DocumentSource) (tool : ToolInfo)
    (cancelled : Bool) (started : Instant) :
    rules.Keeps true (fun _ => True) (runDocuments settings source tool cancelled started) := by
  refine keeps_bind (keeps_of_queries source.queries_documents) fun found _ => ?_
  cases found with
  | error why => exact keeps_pure trivial
  | ok paths =>
      refine keeps_bind (keeps_processDocuments _ _ _) fun processed _ => ?_
      exact keeps_bind (keeps_of_queries (Script.queries_request trivial)) fun _ _ =>
        keeps_pure trivial

/-- How a run ends: without the lock, and with an error if the lock was held by another. -/
structure Ended (rules : LockRules) (outcome : RunOutcome) (answered : List Exchange) : Prop where
  /-- The lock is not held. -/
  free : holdsLock rules.lock answered = false
  /-- A run that finds the lock held ends with that error. -/
  refused : ⟨.claim rules.lock, .error .held⟩ ∈ answered →
    outcome.report = .error (.lock (.held rules.lock))

/-- A run that has not been refused has ended when it does not hold the lock. -/
theorem At.ended (h : rules.At false answered) (outcome : RunOutcome) :
    rules.Ended outcome answered :=
  ⟨h.holds, fun hmem => absurd ⟨_, _, hmem⟩ h.unrefused⟩

theorem at_nil : rules.At false [] :=
  ⟨trivial, fun ⟨_, _, hmem⟩ => List.not_mem_nil hmem, rfl⟩

end LockRules

open LockRules

/-- The rules of a run with these settings. -/
def RunSettings.lockRules (settings : RunSettings) (leads : Path → Prop) : LockRules :=
  ⟨settings.writesDocuments, RunLock.path settings.root, leads⟩

/-- A run keeps to its rules and gives the lock back, however it ends. -/
theorem ensures_ended_run (settings : RunSettings) (source : DocumentSource) (tool : ToolInfo)
    (cancelled : Bool) (leads : Path → Prop) :
    (run settings source tool cancelled).Ensures (settings.lockRules leads).recorded
      (settings.lockRules leads).Kept (settings.lockRules leads).Ended [] := by
  cases hwrites : settings.writesDocuments with
  | false =>
      refine (keeps_of_queries (queries_run hwrites source tool cancelled) [] at_nil).mono ?_
      rintro outcome answered ⟨hat, -⟩
      exact hat.ended outcome
  | true =>
      unfold run
      simp only [hwrites, ↓reduceIte]
      rintro started _ ⟨rfl, -⟩
      have hbegun : (settings.lockRules leads).At false [⟨.now, started⟩] :=
        at_nil.query (r := .now) trivial started
      refine ⟨hbegun.kept, ?_⟩
      rintro answer _ ⟨rfl, -⟩
      have hkept : (settings.lockRules leads).Kept
          [⟨.claim (RunLock.path settings.root), answer⟩, ⟨.now, started⟩] := by
        refine ⟨⟨rfl, hwrites, ?_⟩, hbegun.unrefused, hbegun.kept⟩
        rw [List.forall_mem_singleton]
      refine ⟨hkept, ?_⟩
      cases answer with
      | error why =>
          cases why with
          | held => exact ⟨rfl, fun _ => rfl⟩
          | failed why =>
              refine ⟨rfl, fun hmem => ?_⟩
              simp at hmem
      | ok got =>
          have hheld : (settings.lockRules leads).At true
              [⟨.claim (RunLock.path settings.root), .ok got⟩, ⟨.now, started⟩] := by
            refine ⟨hkept, ?_, ?_⟩
            · rintro ⟨path, why, hmem⟩
              simp at hmem
            · simp [holdsLock, RunSettings.lockRules]
          change Script.Ensures _ _ (runDocuments settings source tool cancelled started >>=
            fun outcome => RunLock.release settings.root >>= fun _ => pure outcome) _ _
          rw [Script.ensures_bind]
          refine (keeps_runDocuments settings source tool cancelled started _ hheld).mono ?_
          rintro outcome answered ⟨hat, -⟩ released _ ⟨rfl, -⟩
          refine ⟨⟨⟨rfl, hat.holds⟩, hat.unrefused, hat.kept⟩, ?_, ?_⟩
          · simp [holdsLock, RunSettings.lockRules]
          · intro hmem
            obtain heq | hmem := List.mem_cons.mp hmem
            · cases congrArg Exchange.request heq
            · exact absurd ⟨_, _, hmem⟩ hat.unrefused

end MarkupRepair
