import MarkupRepair.Proofs.Repair.Expansion
import MarkupRepair.Proofs.Repair.Content
import MarkupRepair.Proofs.Repair.Planning

/-!
# One pass changes nothing but what it is meant to

When the fixes of a pass find what they are meant for, a pass without new declarations and closing
tags changes the text inside of tags and completes references. The text between the tags comes out
the same and in the same order.
-/

namespace MarkupRepair

/-- The codes of issues that belong to a place. -/
def placedCodes : List String :=
  ["unquoted_attribute", "malformed_attribute", "corrupted_quotes", "self_closed_container",
    "invalid_entity"]

namespace Fix

variable {t : Text} {fix : Fix}

/-- A fix with a place that belongs to a token of an anchored text is anchored there. -/
theorem exists_anchor (h : Anchored t) (hfix : fix.BelongsTo (scan t))
    (hplace : fix.position?.isSome = true) : ∃ u x z, fix.Anchor t u x z := by
  cases fix with
  | quoteAttribute p name value =>
      obtain ⟨tag, htag, a, ha, rfl, rfl, rfl, hquoting⟩ := hfix
      exact exists_anchor_quoteAttribute h htag ha hquoting
  | collapseQuotes p name quotes =>
      obtain ⟨tag, htag, a, ha, rfl, rfl, hquoting⟩ := hfix
      exact exists_anchor_collapseQuotes h htag ha hquoting
  | terminateEntity p entity =>
      obtain ⟨e, he, rfl, rfl, hopen⟩ := hfix
      exact exists_anchor_terminateEntity he hopen
  | expandSelfClosing p name =>
      obtain ⟨tag, htag, rfl, rfl, hkind, hcontainer⟩ := hfix
      exact exists_anchor_expandSelfClosing h htag hkind hcontainer
  | _ => cases hplace

/-- A fix at its anchor does its work there whatever fixes after it have made of the text. -/
theorem Anchor.exists_changesInPlace {u x z changed : Text} (h : fix.Anchor t u x z)
    (hchanged : Settled (scan t) (Text.size u + Text.size x) z changed) :
    ∃ next, fix.ChangesInPlace (u ++ (x ++ changed)) (u ++ next) ∧
      Settled (scan t) (Text.size u) (x ++ z) next := by
  obtain ⟨next, hedit, hnext⟩ := h.edit changed hchanged
  exact ⟨next, ⟨u, x ++ changed, next, rfl, rfl, h.position, hedit⟩, hnext⟩

end Fix

namespace PlannedFix

variable {a b : PlannedFix} {p q : Position}

theorem rank_eq_zero (h : a.fix.position? = some p) : a.rank = 0 := by
  obtain ⟨fix, code, line, column⟩ := a
  cases fix with
  | quoteAttribute | collapseQuotes | terminateEntity | expandSelfClosing => rfl
  | _ => cases h

/-- Of two fixes with places the one that is applied first has the later place, and the other one
does not read up to it. -/
theorem precedes_of_inOrder (ha : a.fix.position? = some p) (hb : b.fix.position? = some q)
    (hp : a.line = some p.line ∧ a.column = some p.column)
    (hq : b.line = some q.line ∧ b.column = some q.column) (horder : a.inOrder b = true)
    (hfree : a.blocks b.fix = false) : b.fix.Precedes q p := by
  have hrank := rank_eq_zero ha
  have hrank' := rank_eq_zero hb
  simp only [inOrder_iff, hp.1, hp.2, hq.1, hq.2, Option.getD_some] at horder
  simp only [blocks, Fix.footprint?, ha, hb, Option.map_some, Fix.Footprint.overlaps,
    Bool.and_eq_false_iff, beq_eq_false_iff_ne, decide_eq_false_iff_not] at hfree
  unfold Fix.Precedes
  omega

end PlannedFix

namespace RepairPlan

variable {t : Text} {fixes : List PlannedFix}

/-- Fixes that change a text one after another, each at the place that it is meant for. -/
inductive AppliesInPlace : List PlannedFix → Text → Text → Prop where
  | nil (t : Text) : AppliesInPlace [] t t
  | cons {planned : PlannedFix} {rest : List PlannedFix} {t next result : Text}
      (h : planned.fix.ChangesInPlace t next) (hrest : AppliesInPlace rest next result) :
      AppliesInPlace (planned :: rest) t result

theorem AppliesInPlace.applies {t result : Text} (h : AppliesInPlace fixes t result) :
    Applies fixes t result := by
  induction h with
  | nil t => exact .nil t
  | cons h _ ih => exact .cons h.apply_eq ih

/-- Fixes that are tried from the last to the first one, each at its anchor, change the text there
and settle it from the first anchor on. -/
theorem exists_settled_appliesInPlace
    (hbelongs : ∀ planned ∈ fixes, planned.fix.BelongsTo (scan t))
    (hanchors : ∀ planned ∈ fixes, ∃ u x z, planned.fix.Anchor t u x z)
    (horder : fixes.Pairwise fun a b => ∀ p q, a.fix.position? = some p →
      b.fix.position? = some q → b.fix.Precedes q p) {u after changed : Text} (ht : t = u ++ after)
    (hchanged : Settled (scan t) (Text.size u) after changed)
    (hleft : ∀ planned ∈ fixes, ∀ v x z, planned.fix.Anchor t v x z → v ++ x <+: u) :
    ∃ v later changed', t = v ++ later ∧ Settled (scan t) (Text.size v) later changed' ∧
      AppliesInPlace fixes (u ++ changed) (v ++ changed') := by
  induction fixes generalizing u after changed with
  | nil => exact ⟨u, after, changed, ht, hchanged, .nil _⟩
  | cons planned rest ih =>
      rw [List.forall_mem_cons] at hbelongs hanchors hleft
      rw [List.pairwise_cons] at horder
      obtain ⟨⟨v, x, z, hanchor⟩, hanchors⟩ := hanchors
      obtain ⟨m, rfl⟩ := hleft.1 v x z hanchor
      obtain rfl : z = m ++ after := by
        have htext := hanchor.text.symm.trans ht
        simp only [List.append_assoc] at htext
        exact List.append_cancel_left (List.append_cancel_left htext)
      rw [Text.size_append, Text.size_append] at hchanged
      obtain ⟨next, hchanges, hnext⟩ := hanchor.exists_changesInPlace (hchanged.append m)
      have hsplit : v ++ x ++ m ++ changed = v ++ (x ++ (m ++ changed)) := by
        simp
      obtain ⟨v', later, changed', ht', hsettled, hrest⟩ :=
        ih hbelongs.2 hanchors horder.2 hanchor.text hnext fun later hlater v' x' z' hanchor' =>
          hanchor'.clear planned.fix v _ hanchor.text hbelongs.1 hanchor.position
            (horder.1 later hlater _ _ hanchor.position hanchor'.position)
      rw [hsplit]
      exact ⟨v', later, changed', ht', hsettled, .cons hchanges hrest⟩

/-- Fixes that are applied from the last to the first one, each at its anchor, settle the text from
the first anchor on. -/
theorem exists_settled_applyFixes
    (hbelongs : ∀ planned ∈ fixes, planned.fix.BelongsTo (scan t))
    (hanchors : ∀ planned ∈ fixes, ∃ u x z, planned.fix.Anchor t u x z)
    (horder : fixes.Pairwise fun a b => ∀ p q, a.fix.position? = some p →
      b.fix.position? = some q → b.fix.Precedes q p) {u after changed : Text} (ht : t = u ++ after)
    (hchanged : Settled (scan t) (Text.size u) after changed)
    (hleft : ∀ planned ∈ fixes, ∀ v x z, planned.fix.Anchor t v x z → v ++ x <+: u) :
    ∃ v later changed', t = v ++ later ∧ Settled (scan t) (Text.size v) later changed' ∧
      (applyFixes fixes (u ++ changed)).1 = v ++ changed' := by
  obtain ⟨v, later, changed', ht', hsettled, happlies⟩ :=
    exists_settled_appliesInPlace hbelongs hanchors horder ht hchanged hleft
  exact ⟨v, later, changed', ht', hsettled, congrArg Prod.fst happlies.applies.applyFixes_eq⟩

/-- The fixes of permitted codes that belong to a place have a place. -/
theorem position?_isSome_of_mem_fixes {policy : RepairPolicy} {issues : List Issue}
    (hpolicy : ∀ code ∈ IssueKind.allCodes, policy.permits code = true → code ∈ placedCodes)
    {planned : PlannedFix} (h : planned ∈ (ofIssues policy issues).fixes) :
    planned.fix.position?.isSome = true := by
  obtain ⟨i, -, hfix, hpermits⟩ := exists_issue_of_mem_fixes h
  have hcode := hpolicy i.code (IssueKind.code_mem_allCodes i.kind) hpermits
  unfold Issue.fix? at hfix
  split at hfix
  next =>
    dsimp only at hfix
    rw [Issue.code] at hcode
    split at hfix
    case h_1 hkind | h_2 hkind | h_3 hkind | h_4 hkind =>
      rw [hkind] at hcode
      exact absurd hcode (by simp [IssueKind.code, placedCodes])
    case h_5 => cases hfix
    all_goals
      obtain ⟨p, -, hmake⟩ := Option.map_eq_some_iff.mp hfix
      rw [← hmake]
      rfl
  next => cases hfix

end RepairPlan

/-- One pass over an anchored text, with a policy that permits only issues that belong to a place,
exchanges characters inside the tags of the text and completes references that are not terminated.
Everything else comes out as it was, in the same order. -/
theorem confined_applyPass {policy : RepairPolicy}
    (hpolicy : ∀ code ∈ IssueKind.allCodes, policy.permits code = true → code ∈ placedCodes)
    {t : Text} (h : Anchored t) :
    Confined (scan t).tags (scan t).entities 0 t (applyPass policy (analyze t) t).1 := by
  have hanchors : ∀ planned ∈ (RepairPlan.ofIssues policy (analyze t)).fixes,
      ∃ u x z, planned.fix.Anchor t u x z := fun planned hplanned =>
    Fix.exists_anchor h (RepairPlan.belongsTo_of_mem_fixes hplanned)
      (RepairPlan.position?_isSome_of_mem_fixes hpolicy hplanned)
  have horder : (RepairPlan.ofIssues policy (analyze t)).fixes.Pairwise fun a b =>
      ∀ p q, a.fix.position? = some p → b.fix.position? = some q → b.fix.Precedes q p := by
    refine (RepairPlan.pairwise_fixes policy (analyze t)).imp_of_mem ?_
    intro a b ha hb hab p q hp hq
    exact PlannedFix.precedes_of_inOrder hp hq (RepairPlan.position_of_mem_fixes ha hp)
      (RepairPlan.position_of_mem_fixes hb hq) hab.1 hab.2
  obtain ⟨v, later, changed, ht, hsettled, happly⟩ :=
    RepairPlan.exists_settled_applyFixes
      (fun planned hplanned => RepairPlan.belongsTo_of_mem_fixes hplanned) hanchors horder
      (List.append_nil t).symm
      (Settled.refl (scan t) (Text.size t) []) fun planned _ v x z hanchor =>
        ⟨z, by rw [List.append_assoc, ← hanchor.text]⟩
  rw [List.append_nil] at happly
  have hconfined := hsettled.confined.mono (List.filter_sublist (l := (scan t).tags)).subset
  have hall := (Confined.refl 0 v).append (by rw [Nat.zero_add]; exact hconfined)
  rw [← ht, ← happly] at hall
  exact hall

/-- A paragraph with a defect of every kind that belongs to a place. -/
def faultyParagraph : Text := "<p a=b c=\"\"\"d\">Tom & Jerry <div e='f&amp'/></p>".toList

set_option maxRecDepth 10000 in
/-- The fixes for that paragraph stay inside of its tags and complete its references. -/
theorem confined_applyPass_faultyParagraph : Anchored faultyParagraph ∧
    Confined (scan faultyParagraph).tags (scan faultyParagraph).entities 0 faultyParagraph
      (applyPass { allow := placedCodes } (analyze faultyParagraph) faultyParagraph).1 := by
  have hpolicy : ∀ code ∈ IssueKind.allCodes,
      RepairPolicy.permits { allow := placedCodes } code = true → code ∈ placedCodes := by
    decide +kernel
  have hanchored : Anchored faultyParagraph := by
    decide +kernel
  exact ⟨hanchored, confined_applyPass hpolicy hanchored⟩

/-- A document with a tag that hides a comment behind an attribute, and prose behind the tag. -/
def hidingDocument (prose : Text) : Text :=
  canonicalProlog ++ '\n' :: (canonicalDoctype ++
    "\n<html xmlns=\"http://www.w3.org/1999/xhtml\"><p a=b<!-- -->>".toList) ++
      (prose ++ "</p></html>".toList)

set_option maxRecDepth 10000 in
/-- The fix for the attribute of that document does not recognise its place, and quotes the
prose. -/
theorem applyPass_hidingDocument :
    (applyPass { allow := placedCodes } (analyze (hidingDocument " a=b ".toList))
      (hidingDocument " a=b ".toList)).1 = hidingDocument " a=\"b\" ".toList := by
  decide +kernel

set_option maxRecDepth 10000 in
/-- So the text between the tags of that document does not come out the same. -/
theorem not_confined_applyPass_hidingDocument :
    (∀ code ∈ IssueKind.allCodes, RepairPolicy.permits { allow := placedCodes } code = true →
      code ∈ placedCodes) ∧
    ¬Confined (scan (hidingDocument " a=b ".toList)).tags
      (scan (hidingDocument " a=b ".toList)).entities 0 (hidingDocument " a=b ".toList)
      (applyPass { allow := placedCodes } (analyze (hidingDocument " a=b ".toList))
        (hidingDocument " a=b ".toList)).1 := by
  refine ⟨by decide +kernel, fun h => ?_⟩
  rw [applyPass_hidingDocument] at h
  obtain ⟨front, rest, hparts, -, hrest⟩ := h.exists_of_append
  obtain ⟨prose, back, rfl, hprose, -⟩ := hrest.exists_of_append
  have hsame : prose = " a=b ".toList := hprose.eq_of_apart (by decide +kernel) (by decide +kernel)
  have hgone : ∀ rest ∈ (hidingDocument " a=\"b\" ".toList).tails,
      List.isPrefixOf " a=b ".toList rest = false := by
    decide +kernel
  have hnone := hgone (prose ++ back) ((List.mem_tails _ _).mpr ⟨front, hparts.symm⟩)
  rw [hsame, List.isPrefixOf_iff_prefix.mpr (List.prefix_append _ _)] at hnone
  cases hnone

end MarkupRepair
