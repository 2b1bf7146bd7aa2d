import MarkupRepair.Proofs.Issue.Analysis
import MarkupRepair.Proofs.Repair.Passes
import MarkupRepair.Proofs.Repair.Planning

/-!
# Repairing an empty document

Repairs add declarations to an empty document but never an element, so the namespace stays
missing whatever the policy permits.
-/

namespace MarkupRepair

namespace RepairPlan

/-- What every fix of a plan keeps, applying the plan keeps. -/
theorem applyFixes_induction {fixes : List PlannedFix} (keeps : Text → Prop)
    (h : ∀ planned ∈ fixes, ∀ t next, keeps t → planned.fix.apply t = some next → keeps next)
    {t : Text} (ht : keeps t) : keeps (applyFixes fixes t).1 := by
  induction fixes generalizing t with
  | nil => exact ht
  | cons planned rest ih =>
      rw [List.forall_mem_cons] at h
      unfold applyFixes
      split
      next next hnext => exact ih h.2 (h.1 t next ht hnext)
      next => exact ih h.2 ht

end RepairPlan

/-- What every pass keeps, repairing keeps. -/
theorem repair_induction {options : RepairOptions} (keeps : Text → Prop)
    (h : ∀ t, keeps t → keeps ((RepairPlan.ofIssues options.policy (analyze t)).apply t).1)
    {t : Text} (ht : keeps t) : keeps (repair options t).content := by
  have hwithin : ∀ budget t, keeps t → keeps (repairWithin options.policy budget t).content := by
    intro budget
    induction budget with
    | zero => exact fun t ht => ht
    | succ budget ih =>
        intro t ht
        by_cases hpass : (applyPass options.policy (analyze t) t).2 = []
        · rwa [(repairWithin_of_applyPass_eq_nil hpass _).2]
        · rw [repairWithin_succ_of_ne hpass]
          exact ih _ (h t ht)
  exact hwithin _ t ht

/-- The texts that consist of canonical declarations at most. -/
def bareDeclarations : List Text :=
  [[], canonicalProlog ++ ['\n'], canonicalDoctype ++ ['\n'],
    canonicalProlog ++ '\n' :: canonicalDoctype ++ ['\n']]

/-- Bare declarations have an error, and what is repaired of them are declarations. -/
private theorem issues_of_mem_bareDeclarations : ∀ t ∈ bareDeclarations,
    (∃ i ∈ (scan t).foundIssues, i.severity.isError = true) ∧
      ∀ i ∈ (scan t).foundIssues, ∀ fix ∈ i.fix?, fix.isDeclaration = true := by
  decide +kernel

private theorem apply_mem_bareDeclarations : ∀ t ∈ bareDeclarations,
    ∀ fix ∈ [Fix.ensureProlog, .ensureDoctype, .ensureNamespace], ∀ next ∈ fix.apply t,
      next ∈ bareDeclarations := by
  decide +kernel

/-- Repairs of bare declarations are bare declarations. -/
theorem repair_mem_bareDeclarations {options : RepairOptions} {t : Text}
    (ht : t ∈ bareDeclarations) : (repair options t).content ∈ bareDeclarations := by
  refine repair_induction (· ∈ bareDeclarations) ?_ ht
  intro t ht
  refine RepairPlan.applyFixes_induction (· ∈ bareDeclarations) ?_ ht
  intro planned hplanned t' next ht' hnext
  obtain ⟨i, hi, hfix, -⟩ := RepairPlan.exists_issue_of_mem_fixes hplanned
  have hdecl := (issues_of_mem_bareDeclarations t ht).2 i (mem_analyze_iff.mp hi) _ hfix
  have hmem : planned.fix ∈ [Fix.ensureProlog, .ensureDoctype, .ensureNamespace] := by
    cases hkind : planned.fix <;> simp_all [Fix.isDeclaration]
  exact apply_mem_bareDeclarations t' ht' _ hmem next hnext

theorem exists_error_of_mem_bareDeclarations {t : Text} (ht : t ∈ bareDeclarations) :
    ∃ i ∈ analyze t, i.severity.isError = true := by
  obtain ⟨i, hi, herror⟩ := (issues_of_mem_bareDeclarations t ht).1
  exact ⟨i, mem_analyze_iff.mpr hi, herror⟩

end MarkupRepair
