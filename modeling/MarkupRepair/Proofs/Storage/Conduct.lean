import Mathlib.Data.List.Nodup
import Mathlib.Data.Set.Function
import MarkupRepair.Storage.Fault
import MarkupRepair.Storage.Memory

/-!
# Scripts on stores that may fail

A conduct says what a store may answer to a request and what may become of it. A script ensures
something under a conduct when it comes out that way whatever the store answers, with a
condition kept after every single request. The rule for sequences lets a script be treated step
by step, and `Host.run_of_ensures` carries the result over to the run on a host, here to a store
in memory whose calls go wrong as planned.
-/

namespace MarkupRepair

/-- What a store may do: the request, the store before, the answer, the store after. -/
abbrev Conduct (σ : Type) := (r : Request) → σ → r.Answer → σ → Prop

namespace Script

private theorem id_map {α : Type} (script : Script α) : id <$> script = script := by
  induction script with
  | done value => rfl
  | ask r next ih => exact congrArg (Script.ask r) (funext ih)

private theorem bind_assoc {α β γ : Type} (script : Script α) (f : α → Script β)
    (g : β → Script γ) : script >>= f >>= g = script >>= fun value => f value >>= g := by
  induction script with
  | done value => rfl
  | ask r next ih => exact congrArg (Script.ask r) (funext ih)

instance : LawfulMonad Script := LawfulMonad.mk' Script id_map (fun _ _ => rfl) bind_assoc

variable {σ α β : Type} {may : Conduct σ} {safe : σ → Prop} {s : σ}

/-- Under every answer that the conduct allows, the store is safe after each request of the
script and the script ends with a value and a store as wanted. -/
def Ensures (may : Conduct σ) (safe : σ → Prop) : Script α → (α → σ → Prop) → σ → Prop
  | .done value, wanted, s => wanted value s
  | .ask r next, wanted, s =>
      ∀ answer after, may r s answer after →
        safe after ∧ (next answer).Ensures may safe wanted after

@[simp] theorem ensures_done {value : α} {wanted : α → σ → Prop} :
    (Script.done value).Ensures may safe wanted s ↔ wanted value s := Iff.rfl

theorem ensures_ask {r : Request} {next : r.Answer → Script α} {wanted : α → σ → Prop} :
    (Script.ask r next).Ensures may safe wanted s ↔
      ∀ answer after, may r s answer after →
        safe after ∧ (next answer).Ensures may safe wanted after := Iff.rfl

/-- A sequence ensures what its first part ensures of its second. -/
@[simp] theorem ensures_bind {script : Script α} {f : α → Script β} {wanted : β → σ → Prop} :
    (script >>= f).Ensures may safe wanted s ↔
      script.Ensures may safe (fun value after => (f value).Ensures may safe wanted after) s := by
  induction script generalizing s with
  | done value => rfl
  | ask r next ih => simp only [ask_bind, ensures_ask, ih]

/-- What is ensured may be weakened. -/
theorem Ensures.mono {script : Script α} {wanted wanted' : α → σ → Prop}
    (h : script.Ensures may safe wanted s)
    (hw : ∀ value after, wanted value after → wanted' value after) :
    script.Ensures may safe wanted' s := by
  induction script generalizing s with
  | done value => exact hw value s h
  | ask r next ih =>
      intro answer after hstep
      obtain ⟨hs, hn⟩ := h answer after hstep
      exact ⟨hs, ih answer hn⟩

end Script

/-- A request in the state of the host that answers it. -/
structure Call (σ : Type) where
  /-- The request. -/
  request : Request
  /-- The state before it is answered. -/
  before : σ

namespace Host

variable {σ α : Type}

/-- The state after a call. -/
def after (host : Host σ) (c : Call σ) : σ := (host.answer c.request c.before).2

/-- The calls of a run in order. -/
def calls (host : Host σ) : Script α → σ → List (Call σ)
  | .done _, _ => []
  | .ask r next, s => ⟨r, s⟩ :: host.calls (next (host.answer r s).1) (host.answer r s).2

@[simp] theorem calls_done (host : Host σ) (value : α) (s : σ) :
    host.calls (.done value) s = [] := rfl

@[simp] theorem calls_ask (host : Host σ) (r : Request) (next : r.Answer → Script α) (s : σ) :
    host.calls (.ask r next) s =
      ⟨r, s⟩ :: host.calls (next (host.answer r s).1) (host.answer r s).2 := rfl

/-- The calls of two scripts in a row are those of the first and then those of the second. -/
theorem calls_bind {β : Type} (host : Host σ) (script : Script α) (f : α → Script β) (s : σ) :
    host.calls (script >>= f) s =
      host.calls script s ++ host.calls (f (host.run script s).1) (host.run script s).2 := by
  induction script generalizing s with
  | done value => rfl
  | ask r next ih => exact congrArg (⟨r, s⟩ :: ·) (ih _ _)

/-- The states of a run: the first one and the one after each call. -/
def states (host : Host σ) (script : Script α) (s : σ) : List σ :=
  s :: (host.calls script s).map host.after

/-- The conduct of a host is to do what it does. -/
def conduct (host : Host σ) : Conduct σ := fun r s a after => (a, after) = host.answer r s

/-- What a script ensures under a conduct holds of its run on every host that keeps to the
conduct, as seen through a view of its states, in each call of that run. -/
theorem run_of_ensures {τ : Type} {host : Host σ} {view : σ → τ} {may : Conduct τ}
    {safe : τ → Prop} {script : Script α} {wanted : α → τ → Prop} {s : σ}
    (hmay : ∀ c ∈ host.calls script s,
      may c.request (view c.before) (host.answer c.request c.before).1 (view (host.after c)))
    (h : script.Ensures may safe wanted (view s)) :
    wanted (host.run script s).1 (view (host.run script s).2) ∧
      ∀ c ∈ host.calls script s, safe (view (host.after c)) := by
  induction script generalizing s with
  | done value => exact ⟨h, by simp⟩
  | ask r next ih =>
      rw [calls_ask, List.forall_mem_cons] at hmay
      obtain ⟨hsafe, hnext⟩ := h _ _ hmay.1
      obtain ⟨hwanted, hrest⟩ := ih _ hmay.2 hnext
      exact ⟨hwanted, List.forall_mem_cons.mpr ⟨hsafe, hrest⟩⟩

/-- What a script ensures under the conduct of a host holds of its run on that host. -/
theorem run_of_ensures_conduct {host : Host σ} {safe : σ → Prop} {script : Script α}
    {wanted : α → σ → Prop} {s : σ} (h : script.Ensures host.conduct safe wanted s) :
    wanted (host.run script s).1 (host.run script s).2 := by
  have hmay : ∀ c ∈ host.calls script s,
      host.conduct c.request c.before (host.answer c.request c.before).1 (host.after c) :=
    fun _ _ => rfl
  have hs : script.Ensures host.conduct safe wanted (id s) := h
  exact (run_of_ensures hmay hs).1

end Host

namespace Memory

/-- The conduct of a store in memory whose calls may fail. Whether a write that was asked to
store some bytes may report success and store others is left to `stores`. A call that fails
changes nothing, except that a failing write may leave any bytes at its path. -/
def mayAnswer (stores : ByteArray → ByteArray → Prop) : Conduct Memory
  | .read path, m, .ok bytes, after => m.get? path = some bytes ∧ after = m
  | .read _, m, .error _, after => after = m
  | .write path bytes, m, .ok (), after => ∃ stored, stores bytes stored ∧ after = m.put path stored
  | .write path _, m, .error _, after => after = m ∨ ∃ stored, after = m.put path stored
  | .copy source target, m, .ok (), after =>
      ∃ bytes, m.get? source = some bytes ∧ after = m.put target bytes
  | .copy _ _, m, .error _, after => after = m
  | .remove path, m, .ok (), after => after = m.erase path
  | .remove _, m, .error _, after => after = m
  | r, m, a, after => (a, after) = Memory.answer r m

/-- The conduct of a store that reports every failure. -/
def mayFail : Conduct Memory := mayAnswer Eq

end Memory

namespace Fault

/-- Whether a fault is reported by the call that it is meant for. -/
def IsLoud (f : Fault) : Prop :=
  f.effect.fail = none → f.effect.content = none ∧ f.effect.keep = none

/-- Whether a fault leaves it to reads to fail or to give the bytes that are there. -/
def ReadsTruly (f : Fault) : Prop :=
  f.operation = .read → f.effect.fail = none → f.effect.content = none

theorem IsLoud.readsTruly {f : Fault} (h : f.IsLoud) : f.ReadsTruly := fun _ hf => (h hf).1

end Fault

/-- The effect of a planned call is that of one of the faults for its operation. -/
theorem exists_of_plannedEffect? {faults : List Fault} {log : List (StoreOperation × Path)}
    {operation : StoreOperation} {e : FaultEffect}
    (h : plannedEffect? faults log operation = some e) :
    ∃ f ∈ faults, f.operation = operation ∧ f.effect = e := by
  obtain ⟨f, hf, rfl⟩ := Option.map_eq_some_iff.mp h
  have ho := List.find?_some hf
  simp only [Bool.and_eq_true, beq_iff_eq] at ho
  exact ⟨f, List.mem_of_find?_eq_some hf, ho.1, rfl⟩

/-- No effect is planned for one of the next two calls of an operation when all faults are for later
ones. -/
theorem plannedEffect?_eq_none_of_lt {faults : List Fault} {start : List (StoreOperation × Path)}
    (hfaults : ∀ f ∈ faults, start.countP (·.1 == f.operation) + 2 ≤ f.nth)
    (log : List (StoreOperation × Path)) (operation : StoreOperation)
    (h : log.countP (·.1 == operation) < start.countP (·.1 == operation) + 2) :
    plannedEffect? faults log operation = none := by
  rw [plannedEffect?, Option.map_eq_none_iff, List.find?_eq_none]
  intro f hf hmatch
  have hnth := hfaults f hf
  simp only [Bool.and_eq_true, beq_iff_eq] at hmatch
  rw [hmatch.1] at hnth
  omega

namespace Memory

/-- A store in memory keeps to the conduct of stores that may fail. -/
theorem mayAnswer_answer {stores : ByteArray → ByteArray → Prop} (hs : ∀ bytes, stores bytes bytes)
    (r : Request) (m : Memory) :
    mayAnswer stores r m (Memory.answer r m).1 (Memory.answer r m).2 := by
  cases r with
  | read path => cases h : m.get? path <;> simp [Memory.answer, mayAnswer, h]
  | write path bytes => exact ⟨bytes, hs bytes, rfl⟩
  | copy source target => cases h : m.get? source <;> simp [Memory.answer, mayAnswer, h]
  | remove path => cases h : m.get? path <;> simp [Memory.answer, mayAnswer, h]
  | _ => rfl

/-- The conduct allows more when a write may store more. -/
theorem mayAnswer_of_write {stores stores' : ByteArray → ByteArray → Prop} {r : Request}
    {m after : Memory} {a : r.Answer} (h : mayAnswer stores r m a after)
    (hw : ∀ path bytes stored, r = .write path bytes → after = m.put path stored →
      stores' bytes stored) : mayAnswer stores' r m a after := by
  cases r with
  | write path bytes =>
      cases a with
      | ok value =>
          obtain ⟨stored, _, rfl⟩ := h
          exact ⟨stored, hw path bytes stored rfl rfl, rfl⟩
      | error why => exact h
  | read path => cases a <;> exact h
  | copy source target => cases a <;> exact h
  | remove path => cases a <;> exact h
  | _ => exact h

end Memory

/-- A fault without a message stores something. -/
theorem FaultEffect.stored_of_fail_eq_none {e : FaultEffect} (h : e.fail = none)
    (bytes : ByteArray) : ∃ stored, e.stored bytes = some stored := by
  unfold FaultEffect.stored
  cases e.content with
  | some other => exact ⟨other, rfl⟩
  | none =>
      cases e.keep with
      | some n => exact ⟨_, rfl⟩
      | none => exact ⟨bytes, by rw [h]⟩

/-- A loud fault without a message changes nothing. -/
theorem FaultEffect.stored_eq_self {e : FaultEffect} (hf : e.fail = none)
    (hc : e.content = none) (hk : e.keep = none) (bytes : ByteArray) :
    e.stored bytes = some bytes := by
  simp only [FaultEffect.stored, hf, hc, hk]

namespace Memory

/-- A fault keeps to the conduct of stores that may fail, as far as it leaves reads alone and
stores what may be stored. -/
theorem mayAnswer_effect {stores : ByteArray → ByteArray → Prop} (hs : ∀ bytes, stores bytes bytes)
    {e : FaultEffect} {r : Request}
    (hread : ∀ path, r = .read path → e.fail = none → e.content = none)
    (hwrite : ∀ bytes stored, e.fail = none → e.stored bytes = some stored → stores bytes stored)
    (m : Memory) :
    mayAnswer stores r m (e.answer Memory.host r m).1 (e.answer Memory.host r m).2 := by
  cases r with
  | read path =>
      cases hf : e.fail with
      | some message => simp [FaultEffect.answer, mayAnswer, hf]
      | none =>
          simp only [FaultEffect.answer, hf, hread path rfl hf]
          exact mayAnswer_answer hs _ m
  | write path bytes =>
      cases hf : e.fail with
      | some message =>
          cases hb : e.stored bytes with
          | none => simp [FaultEffect.answer, mayAnswer, hf, hb]
          | some stored =>
              simp only [FaultEffect.answer, hf, hb]
              exact Or.inr ⟨stored, rfl⟩
      | none =>
          obtain ⟨stored, hb⟩ := FaultEffect.stored_of_fail_eq_none hf bytes
          simp only [FaultEffect.answer, hf, hb]
          exact ⟨stored, hwrite bytes stored hf hb, rfl⟩
  | copy source target =>
      cases hf : e.fail with
      | some message => simp [FaultEffect.answer, mayAnswer, hf]
      | none =>
          simp only [FaultEffect.answer, hf]
          exact mayAnswer_answer hs _ m
  | remove path =>
      cases hf : e.fail with
      | some message => simp [FaultEffect.answer, mayAnswer, hf]
      | none =>
          simp only [FaultEffect.answer, hf]
          exact mayAnswer_answer hs _ m
  | _ => exact mayAnswer_answer hs _ m

variable {faults : List Fault}

/-- The answer of a store in memory whose calls go wrong as planned. -/
theorem faulty_answer (faults : List Fault) (r : Request) (s : Logged Memory) :
    (Memory.host.faulty faults).answer r s =
      match r.storeCall? with
      | none => ((Memory.answer r s.inner).1, { s with inner := (Memory.answer r s.inner).2 })
      | some call =>
          let step := match plannedEffect? faults s.log call.1 with
            | some effect => effect.answer Memory.host r s.inner
            | none => Memory.answer r s.inner
          (step.1, ⟨step.2, call :: s.log⟩) := by
  cases h : r.storeCall? <;> simp only [Host.faulty, h] <;> rfl

/-- Planned faults keep to the conduct of stores that may fail, as far as each of them does. -/
theorem mayAnswer_faulty {stores : ByteArray → ByteArray → Prop} (hs : ∀ bytes, stores bytes bytes)
    (hread : ∀ f ∈ faults, f.ReadsTruly)
    (hwrite : ∀ f ∈ faults, ∀ bytes stored, f.effect.fail = none →
      f.effect.stored bytes = some stored → stores bytes stored)
    (r : Request) (s : Logged Memory) :
    mayAnswer stores r s.inner ((Memory.host.faulty faults).answer r s).1
      ((Memory.host.faulty faults).answer r s).2.inner := by
  cases hcall : r.storeCall? with
  | none =>
      simp only [Host.faulty, hcall]
      exact mayAnswer_answer hs r s.inner
  | some call =>
      cases he : plannedEffect? faults s.log call.1 with
      | none =>
          simp only [Host.faulty, hcall, he]
          exact mayAnswer_answer hs r s.inner
      | some e =>
          simp only [Host.faulty, hcall, he]
          obtain ⟨f, hf, hop, rfl⟩ := exists_of_plannedEffect? he
          refine mayAnswer_effect hs ?_ (hwrite f hf) s.inner
          rintro path rfl
          obtain rfl : (StoreOperation.read, path) = call := Option.some.inj hcall
          exact hread f hf hop

/-- Loud faults keep to the conduct of a store that reports every failure. -/
theorem mayFail_faulty (hfaults : ∀ f ∈ faults, f.IsLoud) (r : Request) (s : Logged Memory) :
    mayFail r s.inner ((Memory.host.faulty faults).answer r s).1
      ((Memory.host.faulty faults).answer r s).2.inner := by
  refine mayAnswer_faulty (fun _ => rfl) (fun f hf => (hfaults f hf).readsTruly) ?_ r s
  intro f hf bytes stored hfail hstored
  obtain ⟨hc, hk⟩ := hfaults f hf hfail
  rw [FaultEffect.stored_eq_self hfail hc hk] at hstored
  exact Option.some.inj hstored

/-- With reads that fail or are true, planned faults keep to the conduct of a store whose
writes may store anything. -/
theorem mayAnswer_faulty_of_readsTruly (hfaults : ∀ f ∈ faults, f.ReadsTruly) (r : Request)
    (s : Logged Memory) :
    mayAnswer (fun _ _ => True) r s.inner ((Memory.host.faulty faults).answer r s).1
      ((Memory.host.faulty faults).answer r s).2.inner :=
  mayAnswer_faulty (fun _ => trivial) hfaults (fun _ _ _ _ _ _ => trivial) r s

/-- The contents that a run has to do with: all that stands on the store at some time, and all
that was to be written. -/
def contentsOf {α : Type} (host : Host (Logged Memory)) (script : Script α)
    (s : Logged Memory) : Set ByteArray :=
  {bytes | (∃ state ∈ host.states script s, ∃ path, state.inner.get? path = some bytes) ∨
    ∃ c ∈ host.calls script s, ∃ path, c.request = .write path bytes}

/-- A digest that tells the contents of a list apart tells them apart wherever there are no
others. -/
theorem injOn_of_nodup {digest : ByteArray → String} {contents : Set ByteArray}
    {list : List ByteArray} (hnodup : (list.map digest).Nodup)
    (h : ∀ bytes ∈ contents, bytes ∈ list) : Set.InjOn digest contents := by
  intro x hx y hy hxy
  exact List.inj_on_of_nodup_map hnodup (h x hx) (h y hy) hxy

/-- Whether a store holds no other contents than these. -/
def Within (contents : Set ByteArray) (m : Memory) : Prop :=
  ∀ path bytes, m.get? path = some bytes → bytes ∈ contents

section Within

variable {contents : Set ByteArray} {m : Memory} {bytes : ByteArray}

theorem Within.put (h : m.Within contents) (path : Path) (hbytes : bytes ∈ contents) :
    (m.put path bytes).Within contents := by
  intro other stored hget
  rw [get?_put] at hget
  split at hget
  next => exact Option.some.inj hget ▸ hbytes
  next => exact h other stored hget

theorem Within.erase (h : m.Within contents) (path : Path) :
    (m.erase path).Within contents := by
  intro other stored hget
  rw [get?_erase] at hget
  split at hget
  next => cases hget
  next => exact h other stored hget

/-- Without faults in its writes, a run that keeps the store within some contents has to do with
none but these. -/
theorem contentsOf_subset {α : Type} {script : Script α} {wanted : α → Logged Memory → Prop}
    {s : Logged Memory} (hfaults : ∀ f ∈ faults, f.operation ≠ .write)
    (hs : s.inner.Within contents)
    (h : script.Ensures (Memory.host.faulty faults).conduct (·.inner.Within contents) wanted s) :
    contentsOf (Memory.host.faulty faults) script s ⊆ contents := by
  have hs' : script.Ensures (Memory.host.faulty faults).conduct (·.inner.Within contents) wanted
      (id s) := h
  have hcalls : ∀ c ∈ (Memory.host.faulty faults).calls script s,
      ((Memory.host.faulty faults).after c).inner.Within contents :=
    (Host.run_of_ensures (fun _ _ => rfl) hs').2
  have hput : ∀ c : Call (Logged Memory), ∀ path bytes, c.request = .write path bytes →
      ((Memory.host.faulty faults).after c).inner.get? path = some bytes := by
    rintro ⟨r, before⟩ path bytes rfl
    have hnone : plannedEffect? faults before.log .write = none := by
      rw [Option.eq_none_iff_forall_ne_some]
      intro effect heffect
      obtain ⟨f, hf, hwrite, -⟩ := exists_of_plannedEffect? heffect
      exact hfaults f hf hwrite
    simp [Host.after, faulty_answer, Request.storeCall?, hnone, answer]
  rintro bytes (⟨state, hstate, path, hget⟩ | ⟨c, hc, path, hwrite⟩)
  · rcases List.mem_cons.mp hstate with rfl | hmem
    · exact hs path bytes hget
    · obtain ⟨c, hc, rfl⟩ := List.mem_map.mp hmem
      exact hcalls c hc path bytes hget
  · exact hcalls c hc path bytes (hput c path bytes hwrite)

end Within

/-- When a digest tells the contents of a run apart, what its writes have stored has another
digest than what they were to store, or is the same. -/
theorem mayAnswer_faulty_of_injOn {α : Type} {digest : ByteArray → String} {script : Script α}
    {s : Logged Memory} (hfaults : ∀ f ∈ faults, f.ReadsTruly)
    (hdigest : Set.InjOn digest (contentsOf (Memory.host.faulty faults) script s)) :
    ∀ c ∈ (Memory.host.faulty faults).calls script s,
      mayAnswer (fun bytes stored => digest stored = digest bytes → stored = bytes)
        c.request c.before.inner ((Memory.host.faulty faults).answer c.request c.before).1
        ((Memory.host.faulty faults).after c).inner := by
  intro c hc
  refine mayAnswer_of_write (mayAnswer_faulty_of_readsTruly hfaults c.request c.before) ?_
  intro path bytes stored hwrite hafter hequal
  have hstored : stored ∈ contentsOf (Memory.host.faulty faults) script s := by
    refine Or.inl ⟨_, List.mem_cons_of_mem _ (List.mem_map_of_mem hc), path, ?_⟩
    rw [hafter, get?_put_self]
  exact hdigest hstored (Or.inr ⟨c, hc, path, hwrite⟩) hequal

end Memory

end MarkupRepair
