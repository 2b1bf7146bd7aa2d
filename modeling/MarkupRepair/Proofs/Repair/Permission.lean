import MarkupRepair.Proofs.Repair.Passes
import MarkupRepair.Proofs.Repair.Planning

/-!
# Repairs within a policy

The policy is asked about every issue of every scan. So what a repair applies comes, in whatever
pass, from issues with permitted codes, and a document without such issues is left as it is and
costs no pass.
-/

namespace MarkupRepair

namespace RepairPlan

variable {policy : RepairPolicy}

/-- Every fix that applying a plan lists has the code of a planned fix. -/
theorem exists_planned_of_mem_applyFixes {fixes : List PlannedFix} {t : Text} {a : AppliedFix}
    (h : a ∈ (applyFixes fixes t).2) : ∃ planned ∈ fixes, planned.code = a.code := by
  induction fixes generalizing t with
  | nil => cases h
  | cons planned rest ih =>
      rw [applyFixes] at h
      cases happly : planned.fix.apply t with
      | none =>
          rw [happly] at h
          obtain ⟨other, hmem, hcode⟩ := ih h
          exact ⟨other, List.mem_cons_of_mem _ hmem, hcode⟩
      | some next =>
          rw [happly] at h
          obtain rfl | hrest := List.mem_cons.mp h
          · exact ⟨planned, List.mem_cons_self, rfl⟩
          · obtain ⟨other, hmem, hcode⟩ := ih hrest
            exact ⟨other, List.mem_cons_of_mem _ hmem, hcode⟩

/-- A plan applies only fixes for issues with permitted codes. -/
theorem permits_of_mem_apply {issues : List Issue} {t : Text} {a : AppliedFix}
    (h : a ∈ ((ofIssues policy issues).apply t).2) : policy.permits a.code = true := by
  obtain ⟨planned, hmem, hcode⟩ := exists_planned_of_mem_applyFixes h
  obtain ⟨i, -, hplanned, -, hpermits⟩ := exists_planned_of_mem_fixes hmem
  obtain ⟨fix, -, rfl⟩ := Option.map_eq_some_iff.mp hplanned
  exact hcode ▸ hpermits

/-- A plan for issues that cannot be fixed or are not permitted is empty. -/
theorem isEmpty_ofIssues {issues : List Issue}
    (h : ∀ i ∈ issues, i.fixable = true → policy.permits i.code = false) :
    (ofIssues policy issues).isEmpty = true := by
  rw [isEmpty, List.isEmpty_iff, List.eq_nil_iff_forall_not_mem]
  intro planned hmem
  obtain ⟨i, hi, -, hfixable, hpermits⟩ := exists_planned_of_mem_fixes hmem
  rw [h i hi hfixable] at hpermits
  cases hpermits

end RepairPlan

open RepairPlan

/-- However many passes a repair takes, all that it applies has permitted codes. -/
theorem permits_of_mem_repairWithin {policy : RepairPolicy} {budget : Nat} {t : Text}
    {a : AppliedFix} (h : a ∈ (repairWithin policy budget t).applied) :
    policy.permits a.code = true := by
  induction budget generalizing t with
  | zero => cases h
  | succ budget ih =>
      by_cases hpass : (applyPass policy (analyze t) t).2 = []
      · rw [(repairWithin_of_applyPass_eq_nil hpass _).1] at h
        cases h
      · rw [repairWithin_succ_of_ne hpass] at h
        rcases List.mem_append.mp h with hnow | hlater
        · exact permits_of_mem_apply hnow
        · exact ih hlater

/-- All that a repair applies has permitted codes. -/
theorem permits_of_mem_repair {options : RepairOptions} {t : Text} {a : AppliedFix}
    (h : a ∈ (repair options t).applied) : options.policy.permits a.code = true :=
  permits_of_mem_repairWithin h

/-- A document whose fixable issues are not permitted is left as it is. -/
theorem repair_of_forall_not_permits {options : RepairOptions} {t : Text}
    (h : ∀ i ∈ analyze t, i.fixable = true → options.policy.permits i.code = false) :
    repair options t = ⟨t, 0, analyze t, [], 0⟩ := by
  rw [repair, repairWithin_of_isEmpty (isEmpty_ofIssues h)]
  rfl

end MarkupRepair
