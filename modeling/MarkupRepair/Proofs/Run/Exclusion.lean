import Mathlib.Logic.Relation
import MarkupRepair.Proofs.Run.LockRules
import MarkupRepair.Storage.Fault
import MarkupRepair.Storage.Memory

/-!
# Runs on one root exclude each other

Any number of runs on one root share a host, and at each moment one of them, whichever it may be,
gets the answer to its next request. The host creates the lock file only where none stands. Then at
most one run holds the lock at any moment, the lock file stands exactly while one does, and what a
run does without the lock changes nothing. Once all runs have ended the lock file is gone.
-/

namespace MarkupRepair

/-- How a host treats its files and one lock file among them: `contents` tells what stands under a
path, and `leads` which paths lead to the lock file. -/
structure Host.GuardsLock {σ : Type} (host : Host σ) (contents : σ → Path → Option ByteArray)
    (lock : Path) (leads : Path → Prop) : Prop where
  /-- Looking changes nothing. -/
  query : ∀ (r : Request) s, r.IsQuery → contents (host.answer r s).2 = contents s
  /-- Whoever asks for the lock file is told that it stands. -/
  isPresent : ∀ path s, leads path → (contents s lock).isSome = true →
    (host.answer (.isPresent path) s).1 = true
  /-- Where the lock file stands, it is not created again. -/
  claim_held : ∀ s, (contents s lock).isSome = true →
    (host.answer (.claim lock) s).1 = .error .held
  /-- Where it is created, it stands. -/
  claim_ok : ∀ s, (host.answer (.claim lock) s).1 = .ok () →
    (contents (host.answer (.claim lock) s).2 lock).isSome = true
  /-- Where it is not created, nothing changes. -/
  claim_error : ∀ s why, (host.answer (.claim lock) s).1 = .error why →
    contents (host.answer (.claim lock) s).2 = contents s
  /-- It can be removed. -/
  release : ∀ s, (contents (host.answer (.release lock) s).2 lock).isSome = false
  /-- Writing removes no file. -/
  write : ∀ path bytes s, (contents s lock).isSome = true →
    (contents (host.answer (.write path bytes) s).2 lock).isSome = true
  /-- Copying removes no file. -/
  copy : ∀ source target s, (contents s lock).isSome = true →
    (contents (host.answer (.copy source target) s).2 lock).isSome = true
  /-- What leads elsewhere is removed without the lock file. -/
  remove : ∀ path s, ¬ leads path → (contents s lock).isSome = true →
    (contents (host.answer (.remove path) s).2 lock).isSome = true

/-- Faults of store calls, whichever are planned, leave a lock file guarded. -/
theorem Host.GuardsLock.faulty {σ : Type} {host : Host σ}
    {contents : σ → Path → Option ByteArray} {lock : Path} {leads : Path → Prop}
    (h : host.GuardsLock contents lock leads) (faults : List Fault) :
    (host.faulty faults).GuardsLock (fun s => contents s.inner) lock leads where
  query r s hr := by
    cases r with
    | kindOf | list | now => exact h.query _ s.inner trivial
    | isPresent path =>
        simp only [Host.faulty, Request.storeCall?]
        split <;> exact h.query (.isPresent path) s.inner trivial
    | read path =>
        simp only [Host.faulty, Request.storeCall?]
        split
        next effect _ =>
          simp only [FaultEffect.answer]
          split
          · rfl
          · rfl
          · exact h.query (.read path) s.inner trivial
        next => exact h.query (.read path) s.inner trivial
    | _ => exact hr.elim
  isPresent path s hleads hpresent := by
    simp only [Host.faulty, Request.storeCall?]
    split <;> exact h.isPresent path s.inner hleads hpresent
  claim_held s := h.claim_held s.inner
  claim_ok s := h.claim_ok s.inner
  claim_error s := h.claim_error s.inner
  release s := h.release s.inner
  write path bytes s hpresent := by
    have hwrite := fun bytes => h.write path bytes s.inner hpresent
    simp only [Host.faulty, Request.storeCall?]
    split
    next effect _ =>
      simp only [FaultEffect.answer]
      cases effect.stored bytes with
      | none => split <;> exact hpresent
      | some stored => split <;> exact hwrite stored
    next => exact hwrite bytes
  copy source target s hpresent := by
    have hcopy := h.copy source target s.inner hpresent
    simp only [Host.faulty, Request.storeCall?]
    split
    next effect _ =>
      simp only [FaultEffect.answer]
      split
      · exact hpresent
      · exact hcopy
    next => exact hcopy
  remove path s hleads hpresent := by
    have hremove := h.remove path s.inner hleads hpresent
    simp only [Host.faulty, Request.storeCall?]
    split
    next effect _ =>
      simp only [FaultEffect.answer]
      split
      · exact hpresent
      · exact hremove
    next => exact hremove

/-- A run under way: its settings, what is left of it, and what it was answered so far, the latest
first. -/
structure RunUnderWay where
  /-- The settings. -/
  settings : RunSettings
  /-- What is left of the run. -/
  left : Script RunOutcome
  /-- What was answered so far. -/
  answered : List Exchange := []

namespace RunUnderWay

/-- A run that has not asked for anything yet. -/
def start (settings : RunSettings) (source : DocumentSource) (tool : ToolInfo)
    (cancelled : Bool) : RunUnderWay :=
  { settings, left := run settings source tool cancelled }

/-- Whether a run is at its start, on some root. -/
def Starts (root : Path) (p : RunUnderWay) : Prop :=
  ∃ settings source tool cancelled, settings.root = root ∧ p = start settings source tool cancelled

/-- Whether a run has got its lock and not given it back. -/
def holds (p : RunUnderWay) : Bool := holdsLock (RunLock.path p.settings.root) p.answered

end RunUnderWay

namespace Host

variable {σ : Type}

/-- A run gets the answer to its next request. -/
inductive Advances (host : Host σ) : RunUnderWay × σ → RunUnderWay × σ → Prop where
  | intro (settings : RunSettings) {r : Request} {next : r.Answer → Script RunOutcome}
      (answered : List Exchange) (s : σ) :
      Advances host (⟨settings, .ask r next, answered⟩, s)
        (⟨settings, next (host.answer r s).1, ⟨r, (host.answer r s).1⟩ :: answered⟩,
          (host.answer r s).2)

/-- One of the runs that share a host gets the answer to its next request. -/
inductive OneAdvances (host : Host σ) : List RunUnderWay × σ → List RunUnderWay × σ → Prop where
  | intro (before : List RunUnderWay) {p p' : RunUnderWay} (after : List RunUnderWay) {s s' : σ}
      (h : host.Advances (p, s) (p', s')) :
      OneAdvances host (before ++ p :: after, s) (before ++ p' :: after, s')

end Host

/-- Whoever has only asked for the time holds no lock. -/
theorem holdsLock_of_now {lock : Path} (answered : List Exchange)
    (h : ∀ e ∈ answered, e.request = .now) : holdsLock lock answered = false := by
  induction answered with
  | nil => rfl
  | cons e earlier ih =>
      rw [List.forall_mem_cons] at h
      obtain ⟨r, answer⟩ := e
      obtain rfl : r = .now := h.1
      exact ih h.2

namespace LockRules

variable {rules : LockRules} {answered : List Exchange}

/-- Only a run that may write gets the lock. -/
theorem Kept.writes (h : rules.Kept answered) (hholds : holdsLock rules.lock answered = true) :
    rules.writes = true := by
  induction answered with
  | nil => cases hholds
  | cons e earlier ih =>
      obtain ⟨hpermits, -, hkept⟩ := h
      obtain ⟨r, answer⟩ := e
      cases r with
      | claim path => exact hpermits.2.1
      | release path => exact ih hkept hpermits.2
      | _ => exact ih hkept hholds

end LockRules

section Sharing

variable {σ : Type} {host : Host σ} {contents : σ → Path → Option ByteArray} {lock : Path}
  {leads : Path → Prop} {s s' : σ} {p p' : RunUnderWay}

namespace RunUnderWay

/-- A run that has kept to the rules of a lock so far and will keep to them. -/
structure Sound (lock : Path) (leads : Path → Prop) (p : RunUnderWay) : Prop where
  /-- The lock is that of the run. -/
  own : RunLock.path p.settings.root = lock
  /-- The rules were kept. -/
  kept : (p.settings.lockRules leads).Kept p.answered
  /-- The rules will be kept, and the lock is given back. -/
  rest : p.left.Ensures (p.settings.lockRules leads).recorded (p.settings.lockRules leads).Kept
    (p.settings.lockRules leads).Ended p.answered

theorem Starts.sound {root : Path} (h : p.Starts root) : p.Sound (RunLock.path root) leads := by
  obtain ⟨settings, source, tool, cancelled, rfl, rfl⟩ := h
  exact ⟨rfl, trivial, ensures_ended_run settings source tool cancelled leads⟩

theorem Starts.holds {root : Path} (h : p.Starts root) : p.holds = false := by
  obtain ⟨settings, source, tool, cancelled, rfl, rfl⟩ := h
  rfl

/-- What a step of a run does to the lock and to the files. -/
inductive Moves (contents : σ → Path → Option ByteArray) (lock : Path) :
    RunUnderWay × σ → RunUnderWay × σ → Prop where
  /-- The run looks, or does not get the lock. -/
  | looks {p p' : RunUnderWay} {s s' : σ} (holds : p'.holds = p.holds)
      (same : contents s' = contents s) : Moves contents lock (p, s) (p', s')
  /-- The run works under the lock. -/
  | works {p p' : RunUnderWay} {s s' : σ} (before : p.holds = true) (after : p'.holds = true)
      (present : (contents s' lock).isSome = true) : Moves contents lock (p, s) (p', s')
  /-- The run gets the lock. -/
  | takes {p p' : RunUnderWay} {s s' : σ} (before : p.holds = false) (after : p'.holds = true)
      (absent : (contents s lock).isSome = false)
      (present : (contents s' lock).isSome = true) : Moves contents lock (p, s) (p', s')
  /-- The run gives the lock back. -/
  | leaves {p p' : RunUnderWay} {s s' : σ} (before : p.holds = true) (after : p'.holds = false)
      (absent : (contents s' lock).isSome = false) : Moves contents lock (p, s) (p', s')

/-- While the lock file stands for a run that holds the lock, the host tells that run the truth. -/
theorem truthful (hhost : host.GuardsLock contents lock leads)
    (hheld : p.holds = true → (contents s lock).isSome = true) (r : Request) :
    (p.settings.lockRules leads).Truthful p.answered r (host.answer r s).1 := by
  cases r with
  | isPresent path => exact fun hleads hholds => hhost.isPresent path s hleads (hheld hholds)
  | _ => trivial

/-- A step keeps a run to the rules, and the rules tell what it does to the lock. -/
theorem Sound.advances (hhost : host.GuardsLock contents lock leads) (hsound : p.Sound lock leads)
    (hheld : p.holds = true → (contents s lock).isSome = true)
    (hadvances : host.Advances (p, s) (p', s')) :
    p'.Sound lock leads ∧ Moves contents lock (p, s) (p', s') := by
  obtain ⟨settings, answered, s⟩ := hadvances
  rename_i r next
  obtain ⟨hkept, hrest⟩ := hsound.rest (host.answer r s).1 _
    ⟨rfl, truthful hhost hheld r⟩
  refine ⟨⟨hsound.own, hkept, hrest⟩, ?_⟩
  have hpermits := hkept.1
  obtain rfl : RunLock.path settings.root = lock := hsound.own
  cases r with
  | read | isPresent | kindOf | list | now => exact .looks rfl (hhost.query _ s trivial)
  | write path bytes => exact .works hpermits hpermits (hhost.write path bytes s (hheld hpermits))
  | copy source target =>
      exact .works hpermits hpermits (hhost.copy source target s (hheld hpermits))
  | remove path =>
      obtain ⟨hleads, hholds⟩ := hpermits
      exact .works hholds hholds (hhost.remove path s hleads (hheld hholds))
  | release path =>
      obtain rfl : path = RunLock.path settings.root := hpermits.1
      refine .leaves hpermits.2 ?_ (hhost.release s)
      simp [holds, holdsLock]
  | makeDirectory path => exact hpermits.elim
  | publish path bytes => exact hpermits.elim
  | claim path =>
      obtain rfl : path = RunLock.path settings.root := hpermits.1
      cases hanswer : (host.answer (.claim (RunLock.path settings.root)) s).1 with
      | error why =>
          refine .looks ?_ (hhost.claim_error s why hanswer)
          simp only [holds, holdsLock]
      | ok got =>
          refine .takes (holdsLock_of_now _ hpermits.2.2) ?_ ?_ (hhost.claim_ok s hanswer)
          · simp [holds, holdsLock]
          · rw [Bool.eq_false_iff]
            intro hpresent
            rw [hhost.claim_held s hpresent] at hanswer
            cases hanswer

end RunUnderWay

/-- The files of some runs in one place: every run is sound, and the lock file stands exactly while
one of them holds the lock. -/
structure Sharing (contents : σ → Path → Option ByteArray) (lock : Path) (leads : Path → Prop)
    (runs : List RunUnderWay) (s : σ) : Prop where
  /-- Every run keeps to the rules. -/
  sound : ∀ p ∈ runs, p.Sound lock leads
  /-- The lock file stands for the one run that holds the lock. -/
  counted : runs.countP RunUnderWay.holds = (contents s lock).isSome.toNat

variable {runs now : List RunUnderWay}

/-- While a run holds the lock, the lock file stands. -/
theorem Sharing.isSome_of_holds (h : Sharing contents lock leads runs s) (hp : p ∈ runs)
    (hholds : p.holds = true) : (contents s lock).isSome = true := by
  have hpos : 0 < runs.countP RunUnderWay.holds := List.countP_pos_iff.mpr ⟨p, hp, hholds⟩
  rw [h.counted] at hpos
  exact Bool.toNat_eq_one.mp (Nat.le_antisymm (Bool.toNat_le _) hpos)

/-- Sharing is kept by a step of one of the runs. -/
theorem Sharing.oneAdvances (hhost : host.GuardsLock contents lock leads)
    (h : Sharing contents lock leads runs s)
    (hadvances : host.OneAdvances (runs, s) (now, s')) : Sharing contents lock leads now s' := by
  cases hadvances with
  | @intro before p p' after _ _ hadvances =>
      have hp : p ∈ before ++ p :: after := List.mem_append_right _ List.mem_cons_self
      obtain ⟨hsound, hmoves⟩ := (h.sound p hp).advances hhost (h.isSome_of_holds hp) hadvances
      have hcounted := h.counted
      rw [List.countP_append, List.countP_cons] at hcounted
      constructor
      · intro q hq
        obtain hq | hq := List.mem_append.mp hq
        · exact h.sound q (List.mem_append_left _ hq)
        · obtain rfl | hq := List.mem_cons.mp hq
          · exact hsound
          · exact h.sound q (List.mem_append_right _ (List.mem_cons_of_mem _ hq))
      · rw [List.countP_append, List.countP_cons]
        cases hmoves with
        | looks holds same => rw [holds, same, hcounted]
        | works before after present =>
            have hpresent := h.isSome_of_holds hp before
            rw [before, hpresent] at hcounted
            rw [after, present, hcounted]
        | takes before after absent present =>
            rw [before, absent] at hcounted
            rw [after, present]
            simp only [Bool.false_eq_true, if_false, if_true, Bool.toNat_true, Bool.toNat_false]
              at hcounted ⊢
            omega
        | leaves before after absent =>
            have hpresent := h.isSome_of_holds hp before
            rw [before, hpresent] at hcounted
            rw [after, absent]
            simp only [Bool.false_eq_true, if_false, if_true, Bool.toNat_true, Bool.toNat_false]
              at hcounted ⊢
            omega

/-- Sharing is kept however the runs take their steps. -/
theorem Sharing.advances (hhost : host.GuardsLock contents lock leads)
    {reached : List RunUnderWay × σ} {start : List RunUnderWay × σ}
    (h : Sharing contents lock leads start.1 start.2)
    (hsteps : Relation.ReflTransGen host.OneAdvances start reached) :
    Sharing contents lock leads reached.1 reached.2 := by
  induction hsteps with
  | refl => exact h
  | tail _ hstep ih => exact ih.oneAdvances hhost hstep

end Sharing

end MarkupRepair
