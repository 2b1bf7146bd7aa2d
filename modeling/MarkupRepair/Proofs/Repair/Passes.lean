import MarkupRepair.Repair.Passes

/-!
# The budget of passes

A repair either finds nothing to change in a text and stops, or makes one pass and goes on with the
text that the pass gives. So a repair with one budget, continued with another, is the repair with
both budgets together, and a repair that stops before its budget is spent has reached a text that
no further repair changes.
-/

namespace MarkupRepair

variable {policy : RepairPolicy} {t : Text}

/-- A pass that changes something is followed by the passes over what it gives. -/
theorem repairWithin_succ_of_ne (h : (applyPass policy (analyze t) t).2 ≠ []) (budget : Nat) :
    repairWithin policy (budget + 1) t =
      let pass := applyPass policy (analyze t) t
      let rest := repairWithin policy budget pass.1
      { rest with applied := pass.2 ++ rest.applied, passes := rest.passes + 1 } := by
  rw [applyPass] at h ⊢
  rw [repairWithin]
  dsimp only
  split
  next hempty =>
    rw [RepairPlan.isEmpty, List.isEmpty_iff] at hempty
    rw [RepairPlan.apply, hempty] at h
    exact absurd rfl h
  next => rw [if_neg (by simpa using h)]

/-- A text in which a pass finds nothing to change is left as it is. The pass is counted when it
had something planned. -/
theorem exists_repairWithin_eq (h : (applyPass policy (analyze t) t).2 = []) (budget : Nat) :
    ∃ passes ≤ budget, repairWithin policy budget t = ⟨t, analyze t, [], passes⟩ := by
  cases budget with
  | zero => exact ⟨0, Nat.le_refl _, rfl⟩
  | succ budget =>
      rw [applyPass] at h
      unfold repairWithin
      dsimp only
      rw [h]
      split
      next => exact ⟨0, Nat.zero_le _, rfl⟩
      next => exact ⟨1, Nat.le_add_left _ _, rfl⟩

/-- Nothing is applied to a text in which a pass finds nothing to change. -/
theorem repairWithin_of_applyPass_eq_nil (h : (applyPass policy (analyze t) t).2 = [])
    (budget : Nat) : (repairWithin policy budget t).applied = [] ∧
      (repairWithin policy budget t).content = t := by
  obtain ⟨_, -, hresult⟩ := exists_repairWithin_eq h budget
  rw [hresult]
  exact ⟨rfl, rfl⟩

/-- The issues that remain are those of the text that the passes give. -/
theorem issuesRemaining_repairWithin (policy : RepairPolicy) (budget : Nat) (t : Text) :
    (repairWithin policy budget t).issuesRemaining =
      analyze (repairWithin policy budget t).content := by
  induction budget generalizing t with
  | zero => rfl
  | succ budget ih =>
      by_cases h : (applyPass policy (analyze t) t).2 = []
      · obtain ⟨_, -, hresult⟩ := exists_repairWithin_eq h (budget + 1)
        rw [hresult]
      · rw [repairWithin_succ_of_ne h]
        exact ih _

/-- No more passes are made than the budget has. -/
theorem passes_repairWithin_le (policy : RepairPolicy) (budget : Nat) (t : Text) :
    (repairWithin policy budget t).passes ≤ budget := by
  induction budget generalizing t with
  | zero => exact Nat.le_refl _
  | succ budget ih =>
      by_cases h : (applyPass policy (analyze t) t).2 = []
      · obtain ⟨passes, hle, hresult⟩ := exists_repairWithin_eq h (budget + 1)
        rw [hresult]
        exact hle
      · rw [repairWithin_succ_of_ne h]
        exact Nat.succ_le_succ (ih _)

/-- A repair that has not spent its passes ends with a text in which a pass finds nothing to
change. -/
theorem applyPass_repairWithin_of_passes_lt {budget : Nat}
    (h : (repairWithin policy budget t).passes < budget) :
    (applyPass policy (analyze (repairWithin policy budget t).content)
      (repairWithin policy budget t).content).2 = [] := by
  induction budget generalizing t with
  | zero => exact absurd h (Nat.not_lt_zero _)
  | succ budget ih =>
      by_cases hpass : (applyPass policy (analyze t) t).2 = []
      · rw [(repairWithin_of_applyPass_eq_nil hpass _).2, hpass]
      · rw [repairWithin_succ_of_ne hpass] at h ⊢
        exact ih (Nat.lt_of_succ_lt_succ h)

/-- More passes work on the text that the passes before them give. -/
theorem repairWithin_add (policy : RepairPolicy) (first more : Nat) (t : Text) :
    let before := repairWithin policy first t
    let after := repairWithin policy more before.content
    (repairWithin policy (first + more) t).content = after.content ∧
      (repairWithin policy (first + more) t).applied = before.applied ++ after.applied := by
  induction first generalizing t with
  | zero => rw [Nat.zero_add]; exact ⟨rfl, rfl⟩
  | succ first ih =>
      rw [Nat.add_right_comm]
      by_cases h : (applyPass policy (analyze t) t).2 = []
      · obtain ⟨hnone, hsame⟩ := repairWithin_of_applyPass_eq_nil h (first + 1)
        obtain ⟨hlater, hstill⟩ := repairWithin_of_applyPass_eq_nil h more
        obtain ⟨hwhole, hkept⟩ := repairWithin_of_applyPass_eq_nil h (first + more + 1)
        simp only [hnone, hsame, hlater, hstill, hwhole, hkept]
        exact ⟨trivial, rfl⟩
      · obtain ⟨hcontent, happlied⟩ := ih (applyPass policy (analyze t) t).1
        rw [repairWithin_succ_of_ne h first, repairWithin_succ_of_ne h (first + more)]
        dsimp only at hcontent happlied ⊢
        rw [happlied, List.append_assoc]
        exact ⟨hcontent, rfl⟩

/-- One more pass works on the text that the passes before it give. -/
theorem applied_repairWithin_succ (policy : RepairPolicy) (budget : Nat) (t : Text) :
    (repairWithin policy (budget + 1) t).applied =
      (repairWithin policy budget t).applied ++
        (applyPass policy (analyze (repairWithin policy budget t).content)
          (repairWithin policy budget t).content).2 := by
  have hone : ∀ t, (repairWithin policy 1 t).applied = (applyPass policy (analyze t) t).2 := by
    intro t
    by_cases h : (applyPass policy (analyze t) t).2 = []
    · rw [(repairWithin_of_applyPass_eq_nil h 1).1, h]
    · rw [repairWithin_succ_of_ne h]
      exact List.append_nil _
  rw [(repairWithin_add policy budget 1 t).2, hone]

/-- The issues that a repair leaves are those of the text that it gives. -/
theorem issuesRemaining_repair (options : RepairOptions) (t : Text) :
    (repair options t).issuesRemaining = analyze (repair options t).content :=
  issuesRemaining_repairWithin options.policy (max options.maxPasses 1) t

/-- Every fix that changed something is counted. -/
theorem fixesApplied_repair (options : RepairOptions) (t : Text) :
    (repair options t).fixesApplied = (repair options t).applied.length := rfl

/-- What the outcome of a repair within a budget of passes owes to whoever reads it. -/
structure RepairResult.Accounts (policy : RepairPolicy) (budget : Nat) (r : RepairResult) :
    Prop where
  /-- The issues that remain are those of the text. -/
  remaining : r.issuesRemaining = analyze r.content
  /-- Every fix that changed something is counted. -/
  counted : r.fixesApplied = r.applied.length
  /-- The budget is kept. -/
  within : r.passes ≤ budget
  /-- If passes are left, then no further repair changes the text. -/
  settled : r.passes < budget → ∀ maxPasses,
    (repair ⟨policy, maxPasses⟩ r.content).applied = [] ∧
      (repair ⟨policy, maxPasses⟩ r.content).content = r.content

/-- A repair accounts for its budget, which is at least one pass. -/
theorem accounts_repair (options : RepairOptions) (t : Text) :
    (repair options t).Accounts options.policy (max options.maxPasses 1) where
  remaining := issuesRemaining_repair options t
  counted := fixesApplied_repair options t
  within := passes_repairWithin_le _ _ t
  settled h _ := repairWithin_of_applyPass_eq_nil (applyPass_repairWithin_of_passes_lt h) _

/-- Repairing a text and then repairing the result is one repair with both budgets of passes, and
each repair accounts for its own budget. -/
theorem repair_repair (policy : RepairPolicy) (t : Text) {m n : Nat} (hm : 1 ≤ m) (hn : 1 ≤ n) :
    let first := repair ⟨policy, m⟩ t
    let second := repair ⟨policy, n⟩ first.content
    let whole := repair ⟨policy, m + n⟩ t
    whole.content = second.content ∧ whole.issuesRemaining = second.issuesRemaining ∧
      whole.applied = first.applied ++ second.applied ∧ first.Accounts policy m := by
  intro first second whole
  have hfirst : max m 1 = m := Nat.max_eq_left hm
  have hsecond : max n 1 = n := Nat.max_eq_left hn
  have hwhole : max (m + n) 1 = m + n := Nat.max_eq_left (Nat.le_add_right_of_le hm)
  have hadd := repairWithin_add policy m n t
  simp only [first, second, whole, repair, hfirst, hsecond, hwhole, RepairPasses.result]
  refine ⟨hadd.1, ?_, hadd.2, ?_⟩
  · rw [issuesRemaining_repairWithin, issuesRemaining_repairWithin, hadd.1]
  · have haccounts := accounts_repair ⟨policy, m⟩ t
    rw [repair, hfirst] at haccounts
    exact haccounts

/-- A document in which a comment keeps the attribute `a` from being quoted, so that every pass
quotes one of four words outside the tag instead. -/
def strayedDocument : Text :=
  canonicalProlog ++ '\n' :: (canonicalDoctype ++
    "\n<html xmlns=\"http://www.w3.org/1999/xhtml\"><p a=b<!-- -->> a=b a=b a=b a=b </p></html>".toList)

set_option maxRecDepth 10000 in
/-- One pass over that document and two more passes over what it gives are three passes over the
document. -/
theorem repair_repair_strayedDocument :
    1 ≤ 1 ∧ 1 ≤ 2 ∧
      let first := repair ⟨{}, 1⟩ strayedDocument
      let second := repair ⟨{}, 2⟩ first.content
      let whole := repair ⟨{}, 1 + 2⟩ strayedDocument
      first.fixesApplied = 1 ∧ second.fixesApplied = 2 ∧
        whole.content = second.content ∧ whole.issuesRemaining = second.issuesRemaining ∧
          whole.applied = first.applied ++ second.applied ∧ first.Accounts {} 1 :=
  have hfirst : (repair ⟨{}, 1⟩ strayedDocument).fixesApplied = 1 := by decide +kernel
  have hsecond : (repair ⟨{}, 2⟩ (repair ⟨{}, 1⟩ strayedDocument).content).fixesApplied = 2 := by
    decide +kernel
  ⟨Nat.le_refl 1, Nat.le_succ 1, hfirst, hsecond,
    repair_repair {} strayedDocument (Nat.le_refl 1) (Nat.le_succ 1)⟩

end MarkupRepair
