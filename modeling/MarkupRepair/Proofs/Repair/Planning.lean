import Mathlib.Data.List.Pairwise
import Mathlib.Tactic.SplitIfs
import MarkupRepair.Repair.Passes

/-!
# Plans without conflicts

No two fixes of a plan overlap, and they are in an order of application. Fixes that neither overlap
nor repeat each other are all in the plan, whatever the order of their issues. When their order of
application is strict, the plan lists them in that order. When all of them change something and no
issue is left, one pass is enough.
-/

namespace MarkupRepair

/-- The planned fix for an issue, if it has a fix. -/
def Issue.planned? (i : Issue) : Option PlannedFix :=
  i.fix?.map fun fix => ⟨fix, i.code, i.line, i.column⟩

namespace PlannedFix

variable {a b : PlannedFix}

/-- What is reported of a fix that has changed something. -/
def applied (a : PlannedFix) : AppliedFix := ⟨a.code, a.fix.describe, a.line⟩

/-- Whether two fixes are in one plan. -/
def Compatible (a b : PlannedFix) : Prop := a.fix ≠ b.fix ∧ a.blocks b.fix = false

/-- Two fixes block each other or neither does. -/
theorem blocks_comm (a b : PlannedFix) : a.blocks b.fix = b.blocks a.fix := by
  unfold blocks
  cases ha : a.fix.footprint? with
  | none => cases b.fix.footprint? <;> rfl
  | some f =>
      cases hb : b.fix.footprint? with
      | none => rfl
      | some g =>
          rw [Bool.eq_iff_iff]
          simp only [Fix.Footprint.overlaps, Bool.and_eq_true, beq_iff_eq, decide_eq_true_eq]
          omega

theorem Compatible.symm (h : Compatible a b) : Compatible b a :=
  ⟨Ne.symm h.1, by rw [blocks_comm, h.2]⟩

/-- Whether a fix has to be applied before another. -/
def Before (a b : PlannedFix) : Prop := a.inOrder b = true ∧ b.inOrder a = false

theorem inOrder_iff : a.inOrder b = true ↔
    a.rank < b.rank ∨ (a.rank = b.rank ∧ (b.line.getD 0 < a.line.getD 0 ∨
      (a.line.getD 0 = b.line.getD 0 ∧ b.column.getD 0 ≤ a.column.getD 0))) := by
  simp [inOrder]

/-- Sorting puts fixes in an order of application. -/
theorem pairwise_mergeSort (fixes : List PlannedFix) :
    (fixes.mergeSort inOrder).Pairwise fun a b => a.inOrder b = true := by
  refine List.pairwise_mergeSort (fun a b c hab hbc => ?_) (fun a b => ?_) fixes
  · rw [inOrder_iff] at hab hbc ⊢
    omega
  · rw [Bool.or_eq_true, inOrder_iff, inOrder_iff]
    omega

/-- Sorting puts fixes in their order when that is strict. -/
theorem mergeSort_eq_of_perm {fixes sorted : List PlannedFix} (hperm : sorted.Perm fixes)
    (hsorted : sorted.Pairwise Before) : fixes.mergeSort inOrder = sorted := by
  have hmerged := pairwise_mergeSort fixes
  have hordered : sorted.Pairwise fun a b => a.inOrder b = true := hsorted.imp fun h => h.1
  refine List.Perm.eq_of_pairwise ?_ hmerged hordered ?_
  · intro a b ha hb hab hba
    refine Decidable.byContradiction ?_
    intro hne
    have hmem : a ∈ sorted := hperm.mem_iff.mpr (List.mem_mergeSort.mp ha)
    have hstrict : Before a b ∨ Before b a := by
      have hsymm : Std.Symm fun a b => Before a b ∨ Before b a := ⟨fun _ _ h => h.symm⟩
      have heither : sorted.Pairwise fun a b => Before a b ∨ Before b a := hsorted.imp Or.inl
      exact heither.forall hmem hb hne
    rcases hstrict with h | h
    · rw [h.2] at hba
      cases hba
    · rw [h.2] at hab
      cases hab
  · exact (List.mergeSort_perm fixes inOrder).trans hperm.symm

end PlannedFix

/-- The fixes for the declarations that a document lacks, in the order of application. -/
def declarationFixes (prolog doctype declared : Bool) : List PlannedFix :=
  (if declared then [] else [⟨.ensureNamespace, "missing_namespace", none, none⟩]) ++
    (if doctype then [] else [⟨.ensureDoctype, "missing_doctype", none, none⟩]) ++
      if prolog then [] else [⟨.ensureProlog, "missing_xml_declaration", none, none⟩]

/-- The fixes for declarations are compatible and have a fixed order. -/
theorem pairwise_declarationFixes (prolog doctype declared : Bool) :
    (declarationFixes prolog doctype declared).Pairwise fun a b =>
      a.Compatible b ∧ a.Before b := by
  unfold PlannedFix.Compatible PlannedFix.Before
  cases prolog <;> cases doctype <;> cases declared <;> decide

namespace RepairPlan

open PlannedFix

/-- An issue leaves the fixes of a plan as they are, or its fix is put after them: that of a
fixable and permitted issue, with no other in its way. -/
theorem fixes_add_cases (policy : RepairPolicy) (plan : RepairPlan) (i : Issue) :
    (add policy plan i).fixes = plan.fixes ∨
      ∃ planned, i.planned? = some planned ∧
        (i.fixable = true ∧ policy.permits i.code = true) ∧
        (∀ a ∈ plan.fixes, a.blocks planned.fix = false) ∧
        (add policy plan i).fixes = plan.fixes ++ [planned] := by
  unfold add
  split
  next => exact Or.inl rfl
  next hfixable =>
    rw [Bool.not_eq_true', Bool.not_eq_false] at hfixable
    split
    next => exact Or.inl rfl
    next hpermits =>
      rw [Bool.not_eq_true', Bool.not_eq_false] at hpermits
      split
      next => exact Or.inl rfl
      next fix hfix =>
        split_ifs with hblocks
        · exact Or.inl rfl
        · exact Or.inl rfl
        · refine Or.inr ⟨_, by rw [Issue.planned?, hfix, Option.map_some],
            ⟨hfixable, hpermits⟩, ?_, rfl⟩
          simpa using hblocks

/-- Every fix of a plan is the planned fix for one of the fixable issues that the policy
permits. -/
theorem exists_planned_of_mem_fixes {policy : RepairPolicy} {issues : List Issue}
    {planned : PlannedFix} (h : planned ∈ (ofIssues policy issues).fixes) :
    ∃ i ∈ issues, i.planned? = some planned ∧ i.fixable = true ∧
      policy.permits i.code = true := by
  have hfold : ∀ (issues : List Issue) (plan : RepairPlan),
      planned ∈ (issues.foldl (add policy) plan).fixes → planned ∈ plan.fixes ∨
        ∃ i ∈ issues, i.planned? = some planned ∧ i.fixable = true ∧
          policy.permits i.code = true := by
    intro issues
    induction issues with
    | nil => exact fun plan hmem => Or.inl hmem
    | cons i rest ih =>
        intro plan hmem
        rcases ih (add policy plan i) hmem with hmem | ⟨j, hj, hfix⟩
        · rcases fixes_add_cases policy plan i with hsame | ⟨added, hadded, hpermits, -, heq⟩
          · exact Or.inl (hsame ▸ hmem)
          · rw [heq, List.mem_append, List.mem_singleton] at hmem
            rcases hmem with hmem | rfl
            · exact Or.inl hmem
            · exact Or.inr ⟨i, List.mem_cons_self, hadded, hpermits⟩
        · exact Or.inr ⟨j, List.mem_cons_of_mem _ hj, hfix⟩
  rw [ofIssues, List.mem_mergeSort] at h
  exact (hfold issues {} h).resolve_left List.not_mem_nil

/-- Every fix of a plan is the fix for one of the issues that the policy permits. -/
theorem exists_issue_of_mem_fixes {policy : RepairPolicy} {issues : List Issue}
    {planned : PlannedFix} (h : planned ∈ (ofIssues policy issues).fixes) :
    ∃ i ∈ issues, i.fix? = some planned.fix ∧ policy.permits i.code = true := by
  obtain ⟨i, hi, hplanned, -, hpermits⟩ := exists_planned_of_mem_fixes h
  obtain ⟨fix, hfix, rfl⟩ := Option.map_eq_some_iff.mp hplanned
  exact ⟨i, hi, hfix, hpermits⟩

/-- The fixes of a plan are in an order of application, and none claims a stretch of a line that
another one needs. -/
theorem pairwise_fixes (policy : RepairPolicy) (issues : List Issue) :
    (ofIssues policy issues).fixes.Pairwise fun a b =>
      a.inOrder b = true ∧ a.blocks b.fix = false := by
  have hfold : ∀ (issues : List Issue) (plan : RepairPlan),
      (plan.fixes.Pairwise fun a b => a.blocks b.fix = false) →
      (issues.foldl (add policy) plan).fixes.Pairwise fun a b => a.blocks b.fix = false := by
    intro issues
    induction issues with
    | nil => exact fun plan hplan => hplan
    | cons i rest ih =>
        intro plan hplan
        refine ih (add policy plan i) ?_
        rcases fixes_add_cases policy plan i with hsame | ⟨planned, -, -, hfree, heq⟩
        · rwa [hsame]
        · rw [heq, List.pairwise_append]
          refine ⟨hplan, List.pairwise_singleton _ _, fun a ha b hb => ?_⟩
          rw [List.mem_singleton.mp hb]
          exact hfree a ha
  refine (pairwise_mergeSort _).and ?_
  exact (hfold issues {} List.Pairwise.nil).perm (List.mergeSort_perm _ _).symm
    fun hab => (blocks_comm _ _).trans hab

/-- A permitted issue adds its fix to a plan that has no fix in its way. -/
theorem fixes_add {policy : RepairPolicy} {plan : RepairPlan} {i : Issue}
    (hpermits : policy.permits i.code = true)
    (h : ∀ a ∈ plan.fixes, ∀ b ∈ i.planned?, Compatible a b) :
    (add policy plan i).fixes = plan.fixes ++ i.planned?.toList := by
  cases hfix : i.fix? with
  | none =>
      have hnone : i.planned? = none := by
        rw [Issue.planned?, hfix, Option.map_none]
      rw [hnone, Option.toList_none, List.append_nil, add, hpermits, hfix]
      cases i.fixable <;> rfl
  | some fix =>
      have hsome : i.planned? = some ⟨fix, i.code, i.line, i.column⟩ := by
        rw [Issue.planned?, hfix, Option.map_some]
      have hfixable : i.fixable = true := by
        cases hfixable : i.fixable with
        | false => simp [Issue.fix?, hfixable] at hfix
        | true => rfl
      have hblocks : plan.fixes.any (·.blocks fix) = false := by
        rw [List.any_eq_false]
        intro a ha
        simp [(h a ha _ hsome).2]
      have hnew : plan.fixes.any (·.fix == fix) = false := by
        rw [List.any_eq_false]
        intro a ha
        simpa using (h a ha _ hsome).1
      rw [hsome, add, hfixable, hpermits, hfix]
      simp [hblocks, hnew]

/-- The permitted issues have all their fixes in the plan when these are compatible, in the order of
application. -/
theorem fixes_ofIssues {policy : RepairPolicy} {issues : List Issue} {sorted : List PlannedFix}
    (hperm : sorted.Perm
      ((issues.filter (policy.permits ·.code)).filterMap Issue.planned?))
    (hcompatible : sorted.Pairwise Compatible) (hsorted : sorted.Pairwise Before) :
    (ofIssues policy issues).fixes = sorted := by
  have hfold : ∀ (issues : List Issue) (plan : RepairPlan),
      (plan.fixes ++ (issues.filter (policy.permits ·.code)).filterMap
        Issue.planned?).Pairwise Compatible →
      (issues.foldl (add policy) plan).fixes =
        plan.fixes ++ (issues.filter (policy.permits ·.code)).filterMap Issue.planned? := by
    intro issues
    induction issues with
    | nil => simp
    | cons i rest ih =>
        intro plan hpairwise
        rw [List.foldl_cons]
        cases hpermits : policy.permits i.code with
        | false =>
            have hadd : (add policy plan i).fixes = plan.fixes := by
              rcases fixes_add_cases policy plan i with hsame | ⟨_, -, hpermitted, -⟩
              · exact hsame
              · rw [hpermits] at hpermitted
                cases hpermitted.2
            rw [List.filter_cons_of_neg (by simp [hpermits]), ← hadd] at hpairwise ⊢
            exact ih (add policy plan i) hpairwise
        | true =>
            have hsplit : plan.fixes ++ (i :: rest.filter (policy.permits ·.code)).filterMap
                Issue.planned? = (plan.fixes ++ i.planned?.toList) ++
                  (rest.filter (policy.permits ·.code)).filterMap Issue.planned? := by
              cases hplanned : i.planned? <;> simp [hplanned]
            rw [List.filter_cons_of_pos (by exact hpermits), hsplit] at hpairwise ⊢
            have hi := (List.pairwise_append.mp (List.pairwise_append.mp hpairwise).1).2.2
            have hadd : (add policy plan i).fixes = plan.fixes ++ i.planned?.toList :=
              fixes_add hpermits fun a ha b hb => hi a ha b (Option.mem_toList.mpr hb)
            rw [← hadd] at hpairwise ⊢
            exact ih (add policy plan i) hpairwise
  have hpairwise := hperm.pairwise hcompatible Compatible.symm
  have hall := hfold issues {} hpairwise
  rw [ofIssues]
  dsimp only
  rw [hall]
  exact mergeSort_eq_of_perm hperm hsorted

/-- Fixes that change a text one after another, each of them something. -/
inductive Applies : List PlannedFix → Text → Text → Prop where
  | nil (t : Text) : Applies [] t t
  | cons {planned : PlannedFix} {t next result : Text} (h : planned.fix.apply t = some next)
      {rest : List PlannedFix} (hrest : Applies rest next result) :
      Applies (planned :: rest) t result

theorem Applies.append {a b : List PlannedFix} {t u v : Text} (ha : Applies a t u)
    (hb : Applies b u v) : Applies (a ++ b) t v := by
  induction ha with
  | nil t => exact hb
  | cons h _ ih => exact .cons h (ih hb)

/-- A fix that is in the plan unless there is nothing to do for it. -/
theorem Applies.unless {done : Bool} {planned : PlannedFix} {t next : Text}
    (h : done = false → planned.fix.apply t = some next) (hdone : done = true → t = next) :
    Applies (if done then [] else [planned]) t next := by
  cases done with
  | true =>
      rw [hdone rfl]
      exact .nil next
  | false => exact .cons (h rfl) (.nil next)

/-- Fixes that all change something are all applied. -/
theorem Applies.applyFixes_eq {fixes : List PlannedFix} {t result : Text}
    (h : Applies fixes t result) : applyFixes fixes t = (result, fixes.map PlannedFix.applied) := by
  induction h with
  | nil t => rfl
  | cons h _ ih =>
      rw [applyFixes, h]
      dsimp only
      rw [ih, List.map_cons]
      rfl

end RepairPlan

open RepairPlan

/-- A document for which nothing is planned is left as it is, and no pass is counted. -/
theorem repairWithin_of_isEmpty {policy : RepairPolicy} {t : Text}
    (h : (ofIssues policy (analyze t)).isEmpty = true) (budget : Nat) :
    repairWithin policy budget t = ⟨t, analyze t, [], 0⟩ := by
  cases budget with
  | zero => rfl
  | succ budget => rw [repairWithin, if_pos h]

/-- A plan whose fixes all change something needs one pass when nothing is planned for the
result. -/
theorem repair_of_applies {options : RepairOptions} {t result : Text} {fixes : List PlannedFix}
    (hfixes : (ofIssues options.policy (analyze t)).fixes = fixes)
    (happlies : Applies fixes t result)
    (hdone : (ofIssues options.policy (analyze result)).isEmpty = true) :
    repair options t = ⟨result, fixes.length, analyze result, fixes.map PlannedFix.applied,
      if fixes = [] then 0 else 1⟩ := by
  obtain ⟨budget, hbudget⟩ : ∃ budget, max options.maxPasses 1 = budget + 1 :=
    ⟨max options.maxPasses 1 - 1, by omega⟩
  have hempty : (ofIssues options.policy (analyze t)).isEmpty = fixes.isEmpty := by
    rw [isEmpty, hfixes]
  have hall : (ofIssues options.policy (analyze t)).apply t =
      (result, fixes.map PlannedFix.applied) := by
    rw [RepairPlan.apply, hfixes, happlies.applyFixes_eq]
  rw [repair, hbudget, repairWithin]
  dsimp only
  rw [hempty, hall, repairWithin_of_isEmpty hdone]
  cases happlies with
  | nil t => simp [RepairPasses.result]
  | cons h hrest => simp [RepairPasses.result]

end MarkupRepair
