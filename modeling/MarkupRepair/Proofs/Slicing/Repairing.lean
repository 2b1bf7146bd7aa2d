import MarkupRepair.Proofs.Slicing.Fixes
import MarkupRepair.Repair.Passes

/-!
# Repairing without a failing slice

Analysing a document slices what its scan slices, planning compares issues and slices no text, and
applying a plan slices what its fixes do. So no pass of a repair makes a slice that fails, and a
repair in which every slice is checked ends with the result of the repair.
-/

namespace MarkupRepair

/-- The issues of a document, which is scanned by slices. -/
def analyzeSliced (t : Text) : Sliced (List Issue) := do
  return (← scanSliced t).issues

/-- The plan for a document, which is scanned by slices. -/
def planSliced (policy : RepairPolicy) (t : Text) : Sliced RepairPlan := do
  return RepairPlan.ofIssues policy (← analyzeSliced t)

namespace RepairPlan

/-- Apply fixes one after another to a text by slices, skipping those that find nothing to
change. -/
def applyFixesSliced : List PlannedFix → Text → Sliced (Text × List AppliedFix)
  | [], t => .ok (t, [])
  | planned :: rest, t => do
      match ← planned.fix.applySliced t with
      | some next =>
          let (result, applied) ← applyFixesSliced rest next
          return (result, ⟨planned.code, planned.fix.describe, planned.line⟩ :: applied)
      | none => applyFixesSliced rest t

/-- Apply a plan to a text by slices. -/
def applySliced (plan : RepairPlan) (t : Text) : Sliced (Text × List AppliedFix) :=
  applyFixesSliced plan.fixes t

end RepairPlan

/-- At most `budget` passes over a text, by slices. -/
def repairWithinSliced (policy : RepairPolicy) : (budget : Nat) → Text → Sliced RepairPasses
  | 0, t => do return ⟨t, ← analyzeSliced t, [], 0⟩
  | budget + 1, t => do
      let issues ← analyzeSliced t
      let plan := RepairPlan.ofIssues policy issues
      if plan.isEmpty then return ⟨t, issues, [], 0⟩
      else
        let (next, applied) ← plan.applySliced t
        if applied.isEmpty then return ⟨t, issues, [], 1⟩
        else
          let rest ← repairWithinSliced policy budget next
          return { rest with applied := applied ++ rest.applied, passes := rest.passes + 1 }

/-- Repair a document by slices. -/
def repairSliced (options : RepairOptions) (t : Text) : Sliced RepairResult := do
  return (← repairWithinSliced options.policy (max options.maxPasses 1) t).result

/-- An analysis slices nothing that fails. -/
theorem analyzeSliced_eq_ok (t : Text) : analyzeSliced t = .ok (analyze t) := by
  rw [analyzeSliced, scanSliced_eq_ok]
  rfl

namespace RepairPlan

/-- Fixes of any kind, applied one after another, slice nothing that fails. -/
theorem applyFixesSliced_eq_ok (fixes : List PlannedFix) (t : Text) :
    applyFixesSliced fixes t = .ok (applyFixes fixes t) := by
  induction fixes generalizing t with
  | nil => rfl
  | cons planned rest ih =>
      rw [applyFixesSliced, Fix.applySliced_eq_ok, Sliced.ok_bind, applyFixes]
      cases planned.fix.apply t with
      | none => exact ih t
      | some next =>
          dsimp only
          rw [ih]
          rfl

/-- Applying a plan slices nothing that fails. -/
theorem applySliced_eq_ok (plan : RepairPlan) (t : Text) :
    plan.applySliced t = .ok (plan.apply t) :=
  applyFixesSliced_eq_ok plan.fixes t

end RepairPlan

/-- The passes of a repair slice nothing that fails. -/
theorem repairWithinSliced_eq_ok (policy : RepairPolicy) (budget : Nat) (t : Text) :
    repairWithinSliced policy budget t = .ok (repairWithin policy budget t) := by
  induction budget generalizing t with
  | zero =>
      rw [repairWithinSliced, analyzeSliced_eq_ok]
      rfl
  | succ budget ih =>
      rw [repairWithinSliced, analyzeSliced_eq_ok, Sliced.ok_bind, repairWithin]
      dsimp only
      split
      next => rfl
      next =>
        rw [RepairPlan.applySliced_eq_ok, Sliced.ok_bind]
        split
        next => rfl
        next =>
          rw [ih]
          rfl

/-- No document makes a slice fail. Scanning, analysing and planning it, applying any fix or plan to
it and repairing it under any options end with their results when every slice is checked. -/
theorem no_slice_fails (t : Text) :
    scanSliced t = .ok (scan t) ∧ analyzeSliced t = .ok (analyze t) ∧
      (∀ policy, planSliced policy t = .ok (RepairPlan.ofIssues policy (analyze t))) ∧
      (∀ fix : Fix, fix.applySliced t = .ok (fix.apply t)) ∧
      (∀ plan : RepairPlan, plan.applySliced t = .ok (plan.apply t)) ∧
      ∀ options, repairSliced options t = .ok (repair options t) := by
  refine ⟨scanSliced_eq_ok t, analyzeSliced_eq_ok t, fun policy => ?_,
    fun fix => fix.applySliced_eq_ok t, fun plan => plan.applySliced_eq_ok t,
    fun options => ?_⟩
  · rw [planSliced, analyzeSliced_eq_ok]
    rfl
  · rw [repairSliced, repairWithinSliced_eq_ok]
    rfl

end MarkupRepair
