import MarkupRepair.Proofs.Storage.Conduct

/-!
# Stores that fail a limited number of times

A store in memory is seen together with the number of failures it has left. A call either goes
as it would on a store that never fails, or it is one of those that may fail and uses up a
failure. Without any failures left a script ensures exactly what its run on the store brings,
and a run under planned faults keeps to this conduct when no more of its calls fail than are
allowed for.
-/

namespace MarkupRepair

/-- Whether a call fails as planned. A presence test cannot fail. -/
def Call.fails {σ : Type} (faults : List Fault) (c : Call (Logged σ)) : Bool :=
  match c.request.storeCall? with
  | some (operation, _) =>
      operation != .isPresent &&
        (plannedEffect? faults c.before.log operation).any (·.fail.isSome)
  | none => false

@[simp] theorem Call.fails_nil {σ : Type} (c : Call (Logged σ)) : c.fails [] = false := by
  cases h : c.request.storeCall? <;> simp [Call.fails, plannedEffect?, h]

namespace Memory

/-- How a call fails that says so: nothing is done, except that a write may leave any bytes at
its path. -/
def fails : Conduct Memory
  | .read _, m, .error _, after => after = m
  | .write path _, m, .error _, after => after = m ∨ ∃ stored, after = m.put path stored
  | .copy _ _, m, .error _, after => after = m
  | .remove _, m, .error _, after => after = m
  | _, _, _, _ => False

/-- The conduct of a store in memory with a number of failures left, when only some requests may
fail. -/
def mayFailWithin (failing : Request → Prop) : Conduct (Memory × Nat) := fun r s a after =>
  (after.2 = s.2 ∧ (a, after.1) = Memory.answer r s.1) ∨
    (failing r ∧ s.2 = after.2 + 1 ∧ fails r s.1 a after.1)

section Scripts

variable {α : Type} {failing : Request → Prop} {wanted : α → Memory × Nat → Prop} {m : Memory}
  {n : Nat}

/-- A request is answered as by a store that never fails, or it fails. -/
theorem ensures_ask_within {r : Request} {next : r.Answer → Script α} :
    (Script.ask r next).Ensures (mayFailWithin failing) (fun _ => True) wanted (m, n) ↔
      (next (Memory.answer r m).1).Ensures (mayFailWithin failing) (fun _ => True) wanted
          ((Memory.answer r m).2, n) ∧
        ∀ answer after left, failing r → n = left + 1 → fails r m answer after →
          (next answer).Ensures (mayFailWithin failing) (fun _ => True) wanted (after, left) := by
  rw [Script.ensures_ask]
  constructor
  · intro h
    refine ⟨(h (Memory.answer r m).1 ((Memory.answer r m).2, n) (Or.inl ⟨rfl, rfl⟩)).2, ?_⟩
    intro answer after left hr hn hfails
    exact (h answer (after, left) (Or.inr ⟨hr, hn, hfails⟩)).2
  · rintro ⟨hsame, hfails⟩ answer ⟨after, left⟩ (⟨hleft, hanswer⟩ | ⟨hr, hn, hstep⟩)
    · obtain rfl : left = n := hleft
      obtain ⟨rfl, rfl⟩ := Prod.mk.inj hanswer
      exact ⟨trivial, hsame⟩
    · exact ⟨trivial, hfails answer after left hr hn hstep⟩

/-- With no failure left a script comes out as its run does. -/
theorem ensures_within_zero_iff {script : Script α} :
    script.Ensures (mayFailWithin failing) (fun _ => True) wanted (m, 0) ↔
      wanted (Memory.host.run script m).1 ((Memory.host.run script m).2, 0) := by
  induction script generalizing m with
  | done value => rfl
  | ask r next ih =>
      rw [ensures_ask_within, ih]
      constructor
      · exact fun h => h.1
      · exact fun h => ⟨h, fun _ _ _ _ hn => absurd hn (Nat.succ_ne_zero _).symm⟩

end Scripts

section Faults

variable {faults : List Fault}

/-- How many faults are meant for a call that is still to come. -/
def faultsLeft (faults : List Fault) (log : List (StoreOperation × Path)) : Nat :=
  faults.countP fun f => log.countP (·.1 == f.operation) ≤ f.nth

theorem faultsLeft_cons_le (faults : List Fault) (log : List (StoreOperation × Path))
    (call : StoreOperation × Path) : faultsLeft faults (call :: log) ≤ faultsLeft faults log := by
  refine List.countP_mono_left fun f _ hf => ?_
  rw [decide_eq_true_eq, List.countP_cons] at hf
  exact decide_eq_true (by omega)

/-- A call passes by the fault that is meant for it. -/
theorem faultsLeft_cons_lt {log : List (StoreOperation × Path)} {call : StoreOperation × Path}
    {f : Fault} (hf : f ∈ faults) (hop : f.operation = call.1)
    (hnth : f.nth = log.countP (·.1 == call.1)) :
    faultsLeft faults (call :: log) < faultsLeft faults log := by
  obtain ⟨before, after, rfl⟩ := List.append_of_mem hf
  have hbefore := faultsLeft_cons_le before log call
  have hafter := faultsLeft_cons_le after log call
  have hmeant : log.countP (·.1 == f.operation) ≤ f.nth := by
    rw [hop, hnth]
  have hpassed : ¬ (call :: log).countP (·.1 == f.operation) ≤ f.nth := by
    rw [List.countP_cons_of_pos (by simp [hop]), hop, hnth]
    omega
  simp only [faultsLeft, List.countP_append] at hbefore hafter ⊢
  rw [List.countP_cons_of_neg (by simpa using hpassed),
    List.countP_cons_of_pos (by simpa using hmeant)]
  omega

/-- Every planned fault makes at most one call fail. -/
theorem countP_fails_le {α : Type} (script : Script α) (s : Logged Memory) :
    ((Memory.host.faulty faults).calls script s).countP (·.fails faults) ≤
      faultsLeft faults s.log := by
  induction script generalizing s with
  | done value => exact Nat.zero_le _
  | ask r next ih =>
      have hrest := ih ((Memory.host.faulty faults).answer r s).1
        ((Memory.host.faulty faults).answer r s).2
      rw [Host.calls_ask, List.countP_cons]
      cases hcall : r.storeCall? with
      | none =>
          have hlog : ((Memory.host.faulty faults).answer r s).2.log = s.log := by
            simp [faulty_answer, hcall]
          have hfails : (Call.mk r s).fails faults = false := by
            simp [Call.fails, hcall]
          rw [hlog] at hrest
          simpa [hfails] using hrest
      | some call =>
          have hlog : ((Memory.host.faulty faults).answer r s).2.log = call :: s.log := by
            simp [faulty_answer, hcall]
          rw [hlog] at hrest
          split
          next hfails =>
            obtain ⟨e, he⟩ : ∃ e, plannedEffect? faults s.log call.1 = some e := by
              cases he : plannedEffect? faults s.log call.1 with
              | none => simp [Call.fails, hcall, he] at hfails
              | some e => exact ⟨e, rfl⟩
            obtain ⟨f, hf, -⟩ := Option.map_eq_some_iff.mp he
            have hmeant := List.find?_some hf
            rw [Bool.and_eq_true, beq_iff_eq, beq_iff_eq] at hmeant
            have hlt := faultsLeft_cons_lt (List.mem_of_find?_eq_some hf) hmeant.1 hmeant.2
            omega
          next =>
            have hle := faultsLeft_cons_le faults s.log call
            omega

/-- A planned fault that says so either fails the call or changes nothing. -/
theorem answer_or_fails_effect {e : FaultEffect}
    (hloud : e.fail = none → e.content = none ∧ e.keep = none) {r : Request}
    {call : StoreOperation × Path} (hcall : r.storeCall? = some call) (m : Memory) :
    if call.1 != .isPresent && e.fail.isSome then
      fails r m (e.answer Memory.host r m).1 (e.answer Memory.host r m).2
    else Memory.answer r m = e.answer Memory.host r m := by
  cases hf : e.fail with
  | none =>
      obtain ⟨hc, hk⟩ := hloud hf
      cases r with
      | read path => simp [FaultEffect.answer, hf, hc, Memory.host]
      | write path bytes =>
          simp [FaultEffect.answer, hf, FaultEffect.stored_eq_self hf hc hk, Memory.host,
            Memory.answer]
      | copy source target => simp [FaultEffect.answer, hf, Memory.host]
      | remove path => simp [FaultEffect.answer, hf, Memory.host]
      | isPresent path => simp [FaultEffect.answer, Memory.host]
      | _ => cases hcall
  | some message =>
      cases r with
      | read path =>
          cases hcall
          simp [FaultEffect.answer, fails, hf]
      | write path bytes =>
          cases hcall
          cases hb : e.stored bytes with
          | none => simp [FaultEffect.answer, fails, hf, hb]
          | some stored =>
              simp only [FaultEffect.answer, hf, hb]
              exact Or.inr ⟨stored, rfl⟩
      | copy source target =>
          cases hcall
          simp [FaultEffect.answer, fails, hf]
      | remove path =>
          cases hcall
          simp [FaultEffect.answer, fails, hf]
      | isPresent path =>
          cases hcall
          simp [FaultEffect.answer, Memory.host]
      | _ => cases hcall

/-- Under loud faults a call that does not fail goes as on a store that never fails. -/
theorem answer_or_fails_faulty (hfaults : ∀ f ∈ faults, f.IsLoud) (r : Request)
    (s : Logged Memory) :
    if (Call.mk r s).fails faults then
      fails r s.inner ((Memory.host.faulty faults).answer r s).1
        ((Memory.host.faulty faults).answer r s).2.inner
    else
      Memory.answer r s.inner = (((Memory.host.faulty faults).answer r s).1,
        ((Memory.host.faulty faults).answer r s).2.inner) := by
  cases hcall : r.storeCall? with
  | none => simp [Call.fails, faulty_answer, hcall]
  | some call =>
      cases he : plannedEffect? faults s.log call.1 with
      | none => simp [Call.fails, faulty_answer, hcall, he]
      | some e =>
          obtain ⟨f, hf, _, rfl⟩ := exists_of_plannedEffect? he
          have heffect := answer_or_fails_effect (hfaults f hf) hcall s.inner
          simpa [Call.fails, faulty_answer, hcall, he] using heffect

/-- What a script ensures with some failures left holds of its run under loud faults when no
more of its calls fail, and only such that may. -/
theorem run_of_ensures_within {α : Type} {failing : Request → Prop} {script : Script α}
    {wanted : α → Memory × Nat → Prop} {s : Logged Memory} {n : Nat}
    (hfaults : ∀ f ∈ faults, f.IsLoud)
    (hfailing : ∀ c ∈ (Memory.host.faulty faults).calls script s, c.fails faults = true →
      failing c.request)
    (hcount : ((Memory.host.faulty faults).calls script s).countP (·.fails faults) ≤ n)
    (h : script.Ensures (mayFailWithin failing) (fun _ => True) wanted (s.inner, n)) :
    ∃ left, wanted ((Memory.host.faulty faults).run script s).1
      (((Memory.host.faulty faults).run script s).2.inner, left) := by
  induction script generalizing s n with
  | done value => exact ⟨n, h⟩
  | ask r next ih =>
      rw [Host.calls_ask, List.forall_mem_cons] at hfailing
      rw [Host.calls_ask, List.countP_cons] at hcount
      rw [ensures_ask_within] at h
      have hstep := answer_or_fails_faulty hfaults r s
      split at hstep
      next hfails =>
        rw [if_pos hfails] at hcount
        obtain ⟨left, rfl⟩ : ∃ left, n = left + 1 := ⟨n - 1, by omega⟩
        exact ih _ hfailing.2 (by omega) (h.2 _ _ left (hfailing.1 hfails) rfl hstep)
      next hfails =>
        rw [if_neg hfails] at hcount
        rw [hstep] at h
        exact ih _ hfailing.2 hcount h.1

end Faults

end Memory

end MarkupRepair
