import MarkupRepair.Proofs.Repair.Allotment
import MarkupRepair.Proofs.Repair.Confinement

/-!
# Pending fixes keep their places

A plan applies its fixes with places first, from the last place to the first one. What a fix reads
is claimed by it, so in an anchored text no other fix changes it before, and the place is still
where it was. So each of these fixes is applied, and at the place that was planned for it.

A fix claims the columns of its name, one more and its value. When white space stands around the
`=`, the value ends behind the columns, and a reference at its end is completed before the value is
looked for.
-/

namespace MarkupRepair

namespace RepairPlan

/-- Fixes that all change something are listed before those that are tried behind them. -/
theorem Applies.applyFixes_append {fixes others : List PlannedFix} {t result : Text}
    (h : Applies fixes t result) : applyFixes (fixes ++ others) t =
      ((applyFixes others result).1,
        fixes.map PlannedFix.applied ++ (applyFixes others result).2) := by
  induction h with
  | nil t => rfl
  | cons h _ ih =>
      rw [List.cons_append, applyFixes, h]
      dsimp only
      rw [ih]
      rfl

/-- The fixes of a plan that have a place. -/
def placed (plan : RepairPlan) : List PlannedFix := plan.fixes.filter (·.fix.position?.isSome)

/-- Every fix with a place in the plan for an anchored text changes the text at its own place, in
the order of the plan, and before the fixes without places are tried. -/
theorem exists_appliesInPlace (policy : RepairPolicy) {t : Text} (h : Anchored t) :
    let plan := ofIssues policy (analyze t)
    ∃ result others, AppliesInPlace plan.placed t result ∧ plan.fixes = plan.placed ++ others ∧
      (∀ planned ∈ others, planned.fix.position? = none) ∧
      plan.apply t = ((applyFixes others result).1,
        plan.placed.map PlannedFix.applied ++ (applyFixes others result).2) := by
  intro plan
  have hmem : ∀ planned ∈ plan.placed,
      planned ∈ plan.fixes ∧ planned.fix.position?.isSome = true := fun _ => List.mem_filter.mp
  have hanchors : ∀ planned ∈ plan.placed, ∃ u x z, planned.fix.Anchor t u x z :=
    fun planned hplanned => Fix.exists_anchor h (belongsTo_of_mem_fixes (hmem planned hplanned).1)
      (hmem planned hplanned).2
  have horder : plan.placed.Pairwise fun a b => ∀ p q, a.fix.position? = some p →
      b.fix.position? = some q → b.fix.Precedes q p := by
    refine ((pairwise_fixes policy (analyze t)).sublist List.filter_sublist).imp_of_mem ?_
    intro a b ha hb hab p q hp hq
    exact PlannedFix.precedes_of_inOrder hp hq (position_of_mem_fixes (hmem a ha).1 hp)
      (position_of_mem_fixes (hmem b hb).1 hq) hab.1 hab.2
  obtain ⟨v, later, changed, -, -, happlies⟩ := exists_settled_appliesInPlace
    (fun planned hplanned => belongsTo_of_mem_fixes (hmem planned hplanned).1) hanchors horder
    (List.append_nil t).symm (Settled.refl (scan t) (Text.size t) [])
    fun planned _ v x z hanchor => ⟨z, by rw [List.append_assoc, ← hanchor.text]⟩
  rw [List.append_nil] at happlies
  have hfixes : plan.fixes = plan.placed ++ _ := fixes_eq_append policy t
  refine ⟨v ++ changed, _, happlies, hfixes, fun planned => Scan.position?_eq_none_of_mem, ?_⟩
  exact (congrArg (applyFixes · t) hfixes).trans happlies.applies.applyFixes_append

/-- The reference and the attribute of a paragraph are completed and quoted at their places. -/
theorem exists_appliesInPlace_paragraph :
    let t := "<p a=b>Q&A</p>".toList
    let plan := ofIssues { allow := placedCodes } (analyze t)
    Anchored t ∧ plan.placed.map (·.fix) = [.terminateEntity ⟨1, 9⟩ "&A".toList,
        .quoteAttribute ⟨1, 4⟩ "a".toList "b".toList] ∧
      ∃ result others, AppliesInPlace plan.placed t result ∧
        plan.fixes = plan.placed ++ others ∧
        (∀ planned ∈ others, planned.fix.position? = none) ∧
        plan.apply t = ((applyFixes others result).1,
          plan.placed.map PlannedFix.applied ++ (applyFixes others result).2) := by
  intro t plan
  have hanchored : Anchored t := by
    decide +kernel
  have hfixes : plan.fixes =
      [⟨.terminateEntity ⟨1, 9⟩ "&A".toList, "invalid_entity", some 1, some 9⟩,
        ⟨.quoteAttribute ⟨1, 4⟩ "a".toList "b".toList, "unquoted_attribute", some 1, some 4⟩] := by
    refine fixes_ofIssues_analyze ?_ ?_ ?_
    · decide +kernel
    · unfold PlannedFix.Compatible
      decide +kernel
    · unfold PlannedFix.Before
      decide +kernel
  have hplaced : plan.placed.map (·.fix) = [.terminateEntity ⟨1, 9⟩ "&A".toList,
      .quoteAttribute ⟨1, 4⟩ "a".toList "b".toList] := by
    rw [placed, hfixes]
    rfl
  exact ⟨hanchored, hplaced, exists_appliesInPlace { allow := placedCodes } hanchored⟩

/-- An attribute with white space before the `=` and an open reference at the start of its value. -/
def spacedDocument : Text :=
  canonicalProlog ++ '\n' :: (canonicalDoctype ++
    "\n<html xmlns=\"http://www.w3.org/1999/xhtml\"><p a     =\"&x y></p></html>".toList)

/-- What is planned for the document: the reference lies behind the columns that quoting the value
claims. -/
def spacedFixes : List PlannedFix :=
  [⟨.terminateEntity ⟨3, 55⟩ "&x".toList, "invalid_entity", some 3, some 55⟩,
    ⟨.quoteAttribute ⟨3, 47⟩ "a".toList "\"&x y".toList, "malformed_attribute", some 3, some 47⟩]

/-- The value of the attribute is planned to be quoted, but has changed before that is tried. -/
theorem not_appliesInPlace_spacedDocument : ¬ ∀ (policy : RepairPolicy) (t : Text),
    (∀ tag ∈ (scan t).tags, Text.slice t tag.span = Text.slice (mask t) tag.span) →
      ∃ result, AppliesInPlace (ofIssues policy (analyze t)).placed t result := by
  intro h
  obtain ⟨result, happlies⟩ := h {} spacedDocument (by decide +kernel)
  have hfixes : (ofIssues {} (analyze spacedDocument)).fixes = spacedFixes := by
    refine fixes_ofIssues_analyze ?_ ?_ ?_
    · decide +kernel
    · unfold PlannedFix.Compatible
      decide +kernel
    · unfold PlannedFix.Before
      decide +kernel
  rw [placed, hfixes] at happlies
  have happlied := congrArg (fun r => r.2.length) happlies.applies.applyFixes_eq
  have hone : (applyFixes (spacedFixes.filter (·.fix.position?.isSome))
      spacedDocument).2.length = 1 := by
    decide +kernel
  rw [hone] at happlied
  cases happlied

end RepairPlan

end MarkupRepair
