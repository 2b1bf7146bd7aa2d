import MarkupRepair.Run.Discovery

/-!
# Listed documents

Paths are the same when they have the same components. Of several spellings of one path in a list
exactly one is kept, and nothing but paths of the list.
-/

namespace MarkupRepair

namespace Path

theorem compareComponents_eq_iff {as bs : List PathComponent} :
    compareComponents as bs = .eq ↔ as = bs := by
  have hcompare : ∀ a b : PathComponent, PathComponent.compare a b = .eq ↔ a = b := by
    intro a b
    cases a <;> cases b <;> simp [PathComponent.compare, PathComponent.rank]
  induction as generalizing bs with
  | nil => cases bs <;> simp [compareComponents]
  | cons a as ih =>
      cases bs with
      | nil => simp [compareComponents]
      | cons b bs => simp [compareComponents, Ordering.then_eq_eq, hcompare, ih]

/-- Two paths are the same when they have the same components. -/
theorem same_iff {p q : Path} : same p q = true ↔ components p = components q := by
  simp only [same, beq_iff_eq, compare, compareComponents_eq_iff]

/-- Nothing is kept but paths of the list. -/
theorem keepLast_subset (paths : List Path) : keepLast paths ⊆ paths := by
  induction paths with
  | nil => exact List.Subset.refl _
  | cons first rest ih =>
      rw [keepLast]
      split
      · exact List.subset_cons_of_subset first ih
      · exact List.cons_subset_cons first ih

/-- Of every path in a list exactly one spelling is kept. -/
theorem countP_same_keepLast {paths : List Path} :
    ∀ p ∈ paths, (keepLast paths).countP (same p) = 1 := by
  have hcongr : ∀ {p q : Path}, same p q = true → same p = same q := by
    intro p q hsame
    funext r
    rw [Bool.eq_iff_iff, same_iff, same_iff, same_iff.mp hsame]
  induction paths with
  | nil => simp
  | cons first rest ih =>
      by_cases hagain : rest.any (same first) = true
      · rw [keepLast, if_pos hagain, List.forall_mem_cons]
        refine ⟨?_, ih⟩
        obtain ⟨p, hp, hsame⟩ := List.any_eq_true.mp hagain
        rw [hcongr hsame]
        exact ih p hp
      · rw [keepLast, if_neg hagain, List.forall_mem_cons]
        have hother : ∀ p ∈ rest, ¬ same first p = true := by
          intro p hp hsame
          exact hagain (List.any_eq_true.mpr ⟨p, hp, hsame⟩)
        constructor
        · have hnone : (keepLast rest).countP (same first) = 0 :=
            List.countP_eq_zero.mpr fun p hp => hother p (keepLast_subset rest hp)
          rw [List.countP_cons, hnone, if_pos (same_iff.mpr rfl)]
        · intro p hp
          have hfirst : ¬ same p first = true := by
            intro hsame
            exact hother p hp (same_iff.mpr (same_iff.mp hsame).symm)
          rw [List.countP_cons, ih p hp, if_neg hfirst]

/-- Of every path in a list some spelling is kept. -/
theorem exists_same_mem_keepLast {paths : List Path} :
    ∀ p ∈ paths, ∃ q ∈ keepLast paths, same p q = true := by
  intro p hp
  have hcount := countP_same_keepLast p hp
  exact List.countP_pos_iff.mp (by omega)

end Path

end MarkupRepair
