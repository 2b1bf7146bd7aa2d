import Mathlib.Data.Prod.Lex
import MarkupRepair.Proofs.Issue.Analysis
import MarkupRepair.Proofs.Repair.Content

/-!
# The order of the issues

The issues of the whole document have no place and come first, in the order of their checks. All
others come after them, sorted by line and column.
-/

namespace MarkupRepair

/-- What comes sorted in front of everything else stays in front. -/
theorem mergeSort_append_of_forall_le {α : Type} {le : α → α → Bool}
    (htrans : ∀ x y z, le x y = true → le y z = true → le x z = true)
    (htotal : ∀ x y, (le x y || le y x) = true) {a b : List α}
    (ha : a.Pairwise fun x y => le x y = true) (hab : ∀ x ∈ a, ∀ y ∈ b, le x y = true) :
    (a ++ b).mergeSort le = a ++ b.mergeSort le := by
  induction a with
  | nil => rfl
  | cons x a ih =>
      rw [List.pairwise_cons] at ha
      rw [List.forall_mem_cons] at hab
      have hfirst : ∀ y ∈ a ++ b, le x y = true := fun y hy =>
        (List.mem_append.mp hy).elim (ha.1 y) (hab.1 y)
      obtain ⟨l, r, hsort, hrest, hbefore⟩ := List.mergeSort_cons htrans htotal x (a ++ b)
      have hl : l = [] := by
        refine List.eq_nil_iff_forall_not_mem.mpr fun y hy => ?_
        have hmem : y ∈ (a ++ b).mergeSort le := hrest ▸ List.mem_append_left r hy
        have hnot := hbefore y hy
        rw [hfirst y (List.mem_mergeSort.mp hmem)] at hnot
        cases hnot
      subst hl
      rw [List.nil_append] at hsort hrest
      rw [List.cons_append, hsort, ← hrest, ih ha.2 hab.2, List.cons_append]

namespace Issue

variable {i j : Issue}

theorem atOrBefore_iff : i.atOrBefore j = true ↔ toLex i.scanKey ≤ toLex j.scanKey := by
  simp [atOrBefore, Prod.Lex.toLex_le_toLex]

theorem atOrBefore_trans (i j k : Issue) (h : i.atOrBefore j = true) (h' : j.atOrBefore k = true) :
    i.atOrBefore k = true := by
  rw [atOrBefore_iff] at h h' ⊢
  exact h.trans h'

theorem atOrBefore_total (i j : Issue) : (i.atOrBefore j || j.atOrBefore i) = true := by
  rw [Bool.or_eq_true, atOrBefore_iff, atOrBefore_iff]
  exact le_total _ _

/-- An issue without a place comes before all others. -/
theorem atOrBefore_of_line_eq_none (hline : i.line = none) (hcolumn : i.column = none)
    (j : Issue) : i.atOrBefore j = true := by
  rw [atOrBefore_iff, scanKey, hline, hcolumn, Prod.Lex.toLex_le_toLex]
  rcases Nat.eq_zero_or_pos j.scanKey.1 with hzero | hpos
  · exact .inr ⟨hzero.symm, Nat.zero_le _⟩
  · exact .inl hpos

end Issue

namespace Scan

variable {s : Scan} {i : Issue}

/-- The issues with a place, in the order of the checks. -/
def placedIssues (s : Scan) : List Issue := s.balanceIssues ++ s.attributeIssues ++ s.entityIssues

/-- The issues of the declarations and of the root have no place. -/
theorem line_eq_none_of_mem_declarationIssues (h : i ∈ s.declarationIssues) :
    i.line = none ∧ i.column = none := by
  obtain ⟨kind, rfl, -⟩ := exists_of_mem_declarationIssues h
  simp [issue, classify]

/-- There is at most one issue for each declaration, and one for the root, in this order. -/
theorem sublist_map_code_declarationIssues (s : Scan) :
    (s.declarationIssues.map (·.code)).Sublist declarationCodes := by
  unfold declarationIssues declarationCodes
  cases s.prologConforms <;> cases s.doctypeConforms <;> cases s.rootHasNamespace <;>
    simp [issue, classify, Issue.code, IssueKind.code]

/-- The issues without a place come first, as they were found, and the others sorted. -/
theorem issues_eq (s : Scan) :
    s.issues = s.declarationIssues ++ s.placedIssues.mergeSort Issue.atOrBefore := by
  have hfirst : ∀ i ∈ s.declarationIssues, ∀ j, i.atOrBefore j = true := fun i hi =>
    have ⟨hline, hcolumn⟩ := line_eq_none_of_mem_declarationIssues hi
    Issue.atOrBefore_of_line_eq_none hline hcolumn
  have hdeclarations : s.declarationIssues.Pairwise fun i j => i.atOrBefore j = true :=
    List.pairwise_of_forall_mem_list fun i hi j _ => hfirst i hi j
  rw [issues, List.append_assoc, List.append_assoc, ← List.append_assoc s.balanceIssues]
  exact mergeSort_append_of_forall_le Issue.atOrBefore_trans Issue.atOrBefore_total hdeclarations
    fun i hi j _ => hfirst i hi j

/-- The issues with a place are listed in the order of their places. -/
theorem pairwise_placedIssues (s : Scan) : (s.placedIssues.mergeSort Issue.atOrBefore).Pairwise
    fun i j => toLex i.scanKey ≤ toLex j.scanKey :=
  (List.pairwise_mergeSort Issue.atOrBefore_trans Issue.atOrBefore_total _).imp
    Issue.atOrBefore_iff.mp

end Scan

end MarkupRepair
