import MarkupRepair.Proofs.Issue.Places
import MarkupRepair.Proofs.Repair.Planning
import MarkupRepair.Proofs.Repair.Sources

/-!
# How a plan allots the issues

The issues are taken into a plan one after another, and each fixable one ends up in one of three
places: its fix is planned, it is deferred because an earlier fix claims some of its columns, or the
policy withholds it. Closing tags and declarations claim no columns, so of these the plan has all
that are permitted. Sorting the fixes puts those with a place first, from the last place to the
first one, then the closing tags from the innermost element to the outermost one, and the
declarations last.
-/

namespace MarkupRepair

/-- Whether a fix reads the column of a position. -/
def Fix.Claims (fix : Fix) (p : Position) : Prop :=
  ∃ f ∈ fix.footprint?, f.line = p.line ∧ f.start ≤ p.column ∧ p.column < f.stop

/-- A fix with a place reads the column of its place. -/
theorem Fix.claims_position {fix : Fix} {p : Position} (h : fix.position? = some p) :
    fix.Claims p := by
  refine ⟨_, by rw [footprint?, h]; rfl, rfl, Nat.le_refl _, ?_⟩
  simp only
  omega

/-- Fixes block each other when both read the same column. -/
theorem PlannedFix.blocks_iff {a : PlannedFix} {fix : Fix} :
    a.blocks fix = true ↔ ∃ p, a.fix.Claims p ∧ fix.Claims p := by
  unfold blocks Fix.Claims
  cases ha : a.fix.position? with
  | none => simp [Fix.footprint?, ha]
  | some q =>
      cases hb : fix.position? with
      | none => simp [Fix.footprint?, hb]
      | some r =>
          simp only [Fix.footprint?, ha, hb, Option.map_some, Option.mem_some, exists_eq_left',
            Fix.Footprint.overlaps, Bool.and_eq_true, beq_iff_eq, decide_eq_true_eq]
          constructor
          · rintro ⟨⟨hline, hleft⟩, hright⟩
            refine ⟨⟨q.line, max q.column r.column⟩, ⟨rfl, ?_⟩, hline.symm, ?_⟩
            all_goals
              simp only
              omega
          · rintro ⟨p, ha, hb⟩
            omega

namespace RepairPlan

/-- How a plan allots issues: which of them it takes, defers and withholds. -/
structure Allots (policy : RepairPolicy) (issues taken : List Issue) (plan : RepairPlan) :
    Prop where
  /-- The fixes are those for the issues that are taken, one for each. -/
  fixes : (taken.map Issue.planned?).Perm (plan.fixes.map some)
  /-- Each fixable issue is taken, deferred or withheld, and only once. -/
  partition : (taken ++ plan.deferred ++ plan.withheld).Perm (issues.filter (·.fixable))
  /-- What is taken is permitted. -/
  permitted : ∀ i ∈ taken, policy.permits i.code = true
  /-- What the policy does not permit is withheld, and nothing else. -/
  withheld : plan.withheld = issues.filter policy.withholds
  /-- What is deferred reads a column that the fix for an earlier issue claims. -/
  deferred : ∀ i ∈ plan.deferred, ∃ j ∈ taken, [j, i].Sublist issues ∧
    ∃ planned ∈ plan.fixes, j.planned? = some planned ∧
      ∃ fix, i.fix? = some fix ∧ ∃ p, planned.fix.Claims p ∧ fix.Claims p

section Allots

variable {policy : RepairPolicy} {issues taken : List Issue} {plan : RepairPlan} {i : Issue}

theorem Allots.nil (policy : RepairPolicy) : Allots policy [] [] {} where
  fixes := .nil
  partition := .nil
  permitted := by simp
  withheld := rfl
  deferred := by simp

/-- A fix in the plan is that for an issue that is taken. -/
theorem Allots.exists_of_mem_fixes {planned : PlannedFix} (h : Allots policy issues taken plan)
    (hplanned : planned ∈ plan.fixes) : ∃ i ∈ taken, i.planned? = some planned :=
  List.mem_map.mp (h.fixes.mem_iff.mpr (List.mem_map_of_mem hplanned))

/-- What is taken is one of the issues. -/
theorem Allots.mem_of_mem_taken (h : Allots policy issues taken plan) (hi : i ∈ taken) :
    i ∈ issues :=
  (List.mem_filter.mp (h.partition.mem_iff.mp
    (List.mem_append_left _ (List.mem_append_left _ hi)))).1

/-- What is deferred stays deferred for the same reason when there are more issues. -/
theorem Allots.deferred_append {fixes : List PlannedFix} (h : Allots policy issues taken plan)
    (later more : List Issue) (hfixes : plan.fixes ⊆ fixes) : ∀ i ∈ plan.deferred,
      ∃ j ∈ taken ++ more, [j, i].Sublist (issues ++ later) ∧
        ∃ planned ∈ fixes, j.planned? = some planned ∧
          ∃ fix, i.fix? = some fix ∧ ∃ p, planned.fix.Claims p ∧ fix.Claims p := by
  intro i hi
  obtain ⟨j, hj, hearlier, planned, hplanned, hrest⟩ := h.deferred i hi
  exact ⟨j, List.mem_append_left _ hj, hearlier.trans (List.sublist_append_left _ _), planned,
    hfixes hplanned, hrest⟩

/-- One more fixable issue is one more to take, to defer or to withhold. -/
theorem Allots.partition_concat (h : Allots policy issues taken plan) (hi : i.fixable = true) :
    (taken ++ plan.deferred ++ plan.withheld ++ [i]).Perm
      ((issues ++ [i]).filter (·.fixable)) := by
  have hfilter : (issues ++ [i]).filter (·.fixable) = issues.filter (·.fixable) ++ [i] := by
    simp [hi]
  rw [hfilter]
  exact h.partition.append_right [i]

/-- One more issue that is permitted withholds nothing more. -/
theorem Allots.withheld_concat (h : Allots policy issues taken plan)
    (hpermits : policy.permits i.code = true) :
    plan.withheld = (issues ++ [i]).filter policy.withholds := by
  simpa [RepairPolicy.withholds, hpermits] using h.withheld

/-- An issue that is not fixable changes nothing. -/
theorem Allots.pass (h : Allots policy issues taken plan) (hi : i.fixable = false) :
    Allots policy (issues ++ [i]) taken plan where
  fixes := h.fixes
  partition := by simpa [hi] using h.partition
  permitted := h.permitted
  withheld := by simpa [RepairPolicy.withholds, hi] using h.withheld
  deferred := by simpa using h.deferred_append [i] [] (List.Subset.refl _)

/-- An issue that the policy does not permit is withheld. -/
theorem Allots.withhold (h : Allots policy issues taken plan) (hi : i.fixable = true)
    (hpermits : policy.permits i.code = false) :
    Allots policy (issues ++ [i]) taken { plan with withheld := plan.withheld ++ [i] } where
  fixes := h.fixes
  partition := by simpa using h.partition_concat hi
  permitted := h.permitted
  withheld := by simpa [RepairPolicy.withholds, hi, hpermits] using h.withheld
  deferred := by simpa using h.deferred_append [i] [] (List.Subset.refl _)

/-- An issue whose fix is blocked is deferred: the fix in its way is that for an earlier issue. -/
theorem Allots.defer {fix : Fix} (h : Allots policy issues taken plan) (hi : i.fixable = true)
    (hpermits : policy.permits i.code = true) (hfix : i.fix? = some fix)
    (hblocks : plan.fixes.any (·.blocks fix) = true) :
    Allots policy (issues ++ [i]) taken { plan with deferred := plan.deferred ++ [i] } where
  fixes := h.fixes
  partition := by
    refine List.Perm.trans ?_ (h.partition_concat hi)
    simp only [List.append_assoc]
    exact (List.perm_append_comm.append_left _).append_left _
  permitted := h.permitted
  withheld := h.withheld_concat hpermits
  deferred := by
    refine List.forall_mem_append.mpr ⟨?_, List.forall_mem_singleton.mpr ?_⟩
    · simpa using h.deferred_append [i] [] (List.Subset.refl _)
    · obtain ⟨planned, hplanned, hclaims⟩ := List.any_eq_true.mp hblocks
      obtain ⟨j, hj, hfrom⟩ := h.exists_of_mem_fixes hplanned
      have hearlier : [j, i].Sublist (issues ++ [i]) :=
        (List.singleton_sublist.mpr (h.mem_of_mem_taken hj)).append (List.Sublist.refl [i])
      exact ⟨j, hj, hearlier, planned, hplanned, hfrom, fix, hfix,
        PlannedFix.blocks_iff.mp hclaims⟩

/-- An issue whose fix joins the plan is taken. -/
theorem Allots.take {fix : Fix} (h : Allots policy issues taken plan) (hi : i.fixable = true)
    (hpermits : policy.permits i.code = true) (hfix : i.fix? = some fix) :
    Allots policy (issues ++ [i]) (taken ++ [i])
      { plan with fixes := plan.fixes ++ [⟨fix, i.code, i.line, i.column⟩] } where
  fixes := by
    rw [List.map_append, List.map_append, List.map_singleton, List.map_singleton, Issue.planned?,
      hfix, Option.map_some]
    exact h.fixes.append_right _
  partition := by
    refine List.Perm.trans ?_ (h.partition_concat hi)
    simp only [List.append_assoc]
    exact List.perm_append_comm.append_left _ |>.trans (by simp)
  permitted := List.forall_mem_append.mpr
    ⟨h.permitted, List.forall_mem_singleton.mpr hpermits⟩
  withheld := h.withheld_concat hpermits
  deferred := h.deferred_append [i] [i] (List.subset_append_left _ _)

/-- A fix in the plan is that for one of the issues. -/
theorem Allots.exists_fix?_of_any {fix : Fix} (h : Allots policy issues taken plan)
    (hany : plan.fixes.any (·.fix == fix) = true) : ∃ j ∈ issues, j.fix? = some fix := by
  obtain ⟨planned, hmem, hsame⟩ := List.any_eq_true.mp hany
  obtain ⟨j, hj, hfrom⟩ := h.exists_of_mem_fixes hmem
  obtain ⟨other, hother, rfl⟩ := Option.map_eq_some_iff.mp hfrom
  obtain rfl : other = fix := eq_of_beq hsame
  exact ⟨j, h.mem_of_mem_taken hj, hother⟩

/-- One more issue is allotted when it has a fix if it is fixable, and its fix is not that of a
declaration that has been seen before. -/
theorem Allots.add (h : Allots policy issues taken plan)
    (hfixable : i.fixable = true → i.fix?.isSome = true)
    (hnew : ∀ j ∈ issues, ∀ fix, fix.isDeclaration = true → j.fix? = some fix →
      i.fix? ≠ some fix) :
    ∃ more, Allots policy (issues ++ [i]) (taken ++ more) (add policy plan i) := by
  unfold RepairPlan.add
  cases hi : i.fixable with
  | false => exact ⟨[], by simpa using h.pass hi⟩
  | true =>
      obtain ⟨fix, hfix⟩ := Option.isSome_iff_exists.mp (hfixable hi)
      cases hpermits : policy.permits i.code with
      | false => exact ⟨[], by simpa using h.withhold hi hpermits⟩
      | true =>
          simp only [Bool.not_true, Bool.false_eq_true, if_false, hfix]
          split
          next hblocks => exact ⟨[], by simpa using h.defer hi hpermits hfix hblocks⟩
          next =>
            rw [if_neg]
            · exact ⟨[i], h.take hi hpermits hfix⟩
            · rw [Bool.and_eq_true]
              rintro ⟨hdeclaration, hany⟩
              obtain ⟨j, hj, hsame⟩ := h.exists_fix?_of_any hany
              exact hnew j hj fix hdeclaration hsame hfix

/-- All issues are allotted when the fixable ones have fixes and no declaration has two. -/
theorem exists_allots (policy : RepairPolicy)
    (hfixable : ∀ i ∈ issues, i.fixable = true → i.fix?.isSome = true)
    (hnew : issues.Pairwise fun j i => ∀ fix : Fix, fix.isDeclaration = true →
      j.fix? = some fix → i.fix? ≠ some fix) :
    ∃ taken, Allots policy issues taken (ofIssues policy issues) := by
  have hfold : ∃ taken, Allots policy issues taken (issues.foldl (add policy) {}) := by
    -- Whether an issue is taken depends on the issues before it, so the last one is split off.
    induction issues using List.reverseRecOn with
    | nil => exact ⟨[], Allots.nil policy⟩
    | append_singleton issues i ih =>
        rw [List.forall_mem_append] at hfixable
        rw [List.pairwise_append] at hnew
        obtain ⟨taken, htaken⟩ := ih hfixable.1 hnew.1
        rw [List.foldl_concat]
        obtain ⟨more, hmore⟩ := htaken.add (List.forall_mem_singleton.mp hfixable.2)
          fun j hj => hnew.2.2 j hj i (List.mem_singleton.mpr rfl)
        exact ⟨taken ++ more, hmore⟩
  obtain ⟨taken, h⟩ := hfold
  have hsorted := (List.mergeSort_perm (issues.foldl (add policy) {}).fixes
    PlannedFix.inOrder).symm
  have hsubset : (issues.foldl (add policy) {}).fixes ⊆ (ofIssues policy issues).fixes :=
    hsorted.subset
  have hdeferred := h.deferred_append [] [] hsubset
  simp only [List.append_nil] at hdeferred
  exact ⟨taken, { h with fixes := h.fixes.trans (hsorted.map some), deferred := hdeferred }⟩

end Allots

end RepairPlan

section Issues

variable {t : Text} {i : Issue} {fix : Fix}

/-- Every issue of a document is that of a kind, at a place unless the kind concerns the whole
document. -/
theorem exists_kind_of_mem_analyze (hi : i ∈ analyze t) : ∃ kind position,
    i = (scan t).issue kind position ∧
      (kind.isDocumentLevel = false → position.isSome = true) := by
  rw [mem_analyze_iff, Scan.foundIssues, List.mem_append, List.mem_append, List.mem_append] at hi
  rcases hi with ((hi | hi) | hi) | hi
  · obtain ⟨kind, rfl, hkind⟩ := Scan.exists_of_mem_declarationIssues hi
    refine ⟨kind, none, rfl, fun h => ?_⟩
    rw [IssueKind.isDocumentLevel_iff.mpr hkind] at h
    cases h
  · obtain ⟨fault, -, rfl⟩ := List.mem_map.mp hi
    exact ⟨_, _, rfl, fun _ => rfl⟩
  · obtain ⟨a, -, hfault⟩ := List.mem_filterMap.mp hi
    obtain ⟨kind, -, rfl⟩ := Option.map_eq_some_iff.mp hfault
    exact ⟨_, _, rfl, fun _ => rfl⟩
  · obtain ⟨e, -, rfl⟩ := List.mem_map.mp hi
    exact ⟨_, _, rfl, fun _ => rfl⟩

/-- A fixable issue of a document has a fix, which has a place unless the issue is that of an
element left open or concerns the whole document. -/
theorem exists_fix?_of_mem_analyze (hi : i ∈ analyze t) (hfixable : i.fixable = true) :
    ∃ fix, i.fix? = some fix ∧
      fix.position?.isNone = (i.kind.isLeftOpen || i.kind.isDocumentLevel) := by
  obtain ⟨kind, position, rfl, hposition⟩ := exists_kind_of_mem_analyze hi
  have hkind : kind.fixable = true := hfixable
  cases kind with
  | missingXmlDeclaration | missingDoctype | missingNamespace => exact ⟨_, rfl, rfl⟩
  | unclosedTag name cause =>
      cases cause with
      | endOfDocument => exact ⟨_, rfl, rfl⟩
      | _ => cases hkind
  | _ =>
      obtain ⟨p, rfl⟩ := Option.isSome_iff_exists.mp (hposition rfl)
      exact ⟨_, rfl, rfl⟩

/-- The issues that concern the whole document are those of its declarations and its root. -/
theorem Scan.perm_filter_isDocumentLevel (s : Scan) :
    (s.issues.filter (·.kind.isDocumentLevel)).Perm s.declarationIssues := by
  have hall : s.declarationIssues.filter (·.kind.isDocumentLevel) = s.declarationIssues :=
    List.filter_eq_self.mpr fun i hi =>
      IssueKind.isDocumentLevel_iff.mpr (foundBy_of_mem .declarations hi)
  have hperm := s.perm_filter_of_foundBy fun _ => IssueKind.isDocumentLevel_iff.mp
  exact hperm.trans (List.Perm.of_eq hall)

/-- The fix of a declaration is that for an issue of the whole document. -/
theorem Issue.isDocumentLevel_of_isDeclaration (hfix : i.fix? = some fix)
    (hdeclaration : fix.isDeclaration = true) : i.kind.isDocumentLevel = true := by
  have hplaced : ∀ {place : Option Position} {make : Position → Fix},
      (∀ p, (make p).isDeclaration = false) → place.map make ≠ some fix := by
    intro place make hmake h
    obtain ⟨p, -, rfl⟩ := Option.map_eq_some_iff.mp h
    rw [hmake p] at hdeclaration
    cases hdeclaration
  unfold Issue.fix? at hfix
  split at hfix
  next =>
    dsimp only at hfix
    split at hfix
    case h_1 hkind | h_2 hkind | h_3 hkind =>
      rw [hkind]
      rfl
    case h_4 =>
      obtain rfl := Option.some.inj hfix
      cases hdeclaration
    case h_5 => cases hfix
    all_goals exact absurd hfix (hplaced fun _ => rfl)
  next => cases hfix

/-- No two issues of a document have the fix of the same declaration. -/
theorem pairwise_declarations (t : Text) : (analyze t).Pairwise fun j i => ∀ fix : Fix,
    fix.isDeclaration = true → j.fix? = some fix → i.fix? ≠ some fix := by
  have hdeclarations : (scan t).declarationIssues.Pairwise fun j i => j.fix? ≠ i.fix? := by
    unfold Scan.declarationIssues
    cases (scan t).prologConforms <;> cases (scan t).doctypeConforms <;>
      cases (scan t).rootHasNamespace <;> simp [Scan.issue, classify, Issue.fix?,
        IssueKind.fixable]
  have hissues := (scan t).perm_filter_isDocumentLevel.symm.pairwise hdeclarations Ne.symm
  refine (List.pairwise_filter.mp hissues).imp fun {j i} h fix hdeclaration hj hi => ?_
  exact h (Issue.isDocumentLevel_of_isDeclaration hj hdeclaration)
    (Issue.isDocumentLevel_of_isDeclaration hi hdeclaration) (hj.trans hi.symm)

end Issues

/-- The issues of a document are allotted. -/
theorem RepairPlan.exists_allots_analyze (policy : RepairPolicy) (t : Text) :
    ∃ taken, (ofIssues policy (analyze t)).Allots policy (analyze t) taken := by
  refine exists_allots policy (fun i hi hfixable => ?_) (pairwise_declarations t)
  obtain ⟨fix, hfix, -⟩ := exists_fix?_of_mem_analyze hi hfixable
  exact Option.isSome_of_eq_some hfix

/-- The fix that closes an element left open. -/
def TagToken.plannedCloser (frame : TagToken) : PlannedFix :=
  ⟨.closeElement frame.name, "unclosed_tag", some frame.position.line,
    some frame.position.column⟩

namespace Scan

/-- The closing tags that a policy permits: one for each element on the stack at the end of the
document, from the top of the stack. -/
def plannedClosers (policy : RepairPolicy) (s : Scan) : List PlannedFix :=
  if policy.permits "unclosed_tag" then
    (Balance.openAtEnd s.tags).map TagToken.plannedCloser
  else []

/-- The declarations that a policy permits of those that are missing. -/
def plannedDeclarations (policy : RepairPolicy) (s : Scan) : List PlannedFix :=
  (declarationFixes s.prologConforms s.doctypeConforms s.rootHasNamespace).filter
    (policy.permits ·.code)

variable {policy : RepairPolicy} {s : Scan}

/-- Closing tags and declarations have no place. -/
theorem position?_eq_none_of_mem {a : PlannedFix}
    (h : a ∈ s.plannedClosers policy ++ s.plannedDeclarations policy) :
    a.fix.position? = none := by
  have hall : ∀ prolog doctype declared, ∀ a ∈ declarationFixes prolog doctype declared,
      a.fix.position? = none := by
    decide
  rcases List.mem_append.mp h with h | h
  · unfold plannedClosers at h
    split at h
    · obtain ⟨frame, -, rfl⟩ := List.mem_map.mp h
      rfl
    · cases h
  · exact hall _ _ _ a (List.mem_filter.mp h).1

/-- What the issues without places plan. -/
theorem perm_planned (policy : RepairPolicy) (s : Scan) :
    (((s.issues.filter (·.kind.isLeftOpen)).filterMap Issue.planned? ++
      (s.issues.filter (·.kind.isDocumentLevel)).filterMap Issue.planned?).filter
        (policy.permits ·.code)).Perm
          (s.plannedClosers policy ++ s.plannedDeclarations policy) := by
  have hclosers : (((Balance.openAtEnd s.tags).reverse.map fun frame =>
      s.issue (.unclosedTag frame.name .endOfDocument) (some frame.position)).filterMap
        Issue.planned?).filter (policy.permits ·.code) = (s.plannedClosers policy).reverse := by
    have hplanned : ((Balance.openAtEnd s.tags).reverse.map fun frame =>
        s.issue (.unclosedTag frame.name .endOfDocument) (some frame.position)).filterMap
          Issue.planned? = (Balance.openAtEnd s.tags).reverse.map TagToken.plannedCloser := by
      rw [List.filterMap_map]
      exact congrFun (@List.filterMap_eq_map _ _ TagToken.plannedCloser) _
    have hcode : ∀ a ∈ (Balance.openAtEnd s.tags).reverse.map TagToken.plannedCloser,
        policy.permits a.code = policy.permits "unclosed_tag" :=
      List.forall_mem_map.mpr fun _ _ => rfl
    rw [hplanned, List.filter_congr hcode, plannedClosers]
    cases policy.permits "unclosed_tag" with
    | true => rw [List.filter_true, List.map_reverse, if_pos rfl]
    | false => rw [List.filter_false, if_neg Bool.false_ne_true, List.reverse_nil]
  have hdeclarations : (s.declarationIssues.filterMap Issue.planned?) =
      (declarationFixes s.prologConforms s.doctypeConforms s.rootHasNamespace).reverse := by
    unfold declarationIssues declarationFixes
    cases s.prologConforms <;> cases s.doctypeConforms <;> cases s.rootHasNamespace <;> rfl
  have hopen := (s.perm_filter_isLeftOpen.filterMap Issue.planned?).filter (policy.permits ·.code)
  have hdocument :=
    (s.perm_filter_isDocumentLevel.filterMap Issue.planned?).filter (policy.permits ·.code)
  rw [hclosers] at hopen
  rw [hdeclarations, List.filter_reverse] at hdocument
  rw [List.filter_append]
  exact (hopen.trans (List.reverse_perm _)).append (hdocument.trans (List.reverse_perm _))

/-- Closing tags and declarations have a fixed order. -/
theorem pairwise_planned (policy : RepairPolicy) (t : Text) :
    ((scan t).plannedClosers policy ++ (scan t).plannedDeclarations policy).Pairwise
      PlannedFix.Before := by
  have hclosers : ((scan t).plannedClosers policy).Pairwise PlannedFix.Before ∧
      ∀ a ∈ (scan t).plannedClosers policy, a.rank = 1 := by
    unfold plannedClosers
    split
    · refine ⟨List.pairwise_map.mpr ((pairwise_position_openAtEnd t).imp fun {a b} h => ?_),
        List.forall_mem_map.mpr fun _ _ => rfl⟩
      rw [PlannedFix.Before, ← Bool.not_eq_true, PlannedFix.inOrder_iff, PlannedFix.inOrder_iff]
      simp only [TagToken.plannedCloser, PlannedFix.rank, Option.getD_some, true_and]
      unfold Position.Before at h
      omega
    · exact ⟨.nil, by simp⟩
  have hdeclarations : ((scan t).plannedDeclarations policy).Pairwise PlannedFix.Before ∧
      ∀ a ∈ (scan t).plannedDeclarations policy, 1 < a.rank := by
    have hall : ∀ prolog doctype declared, ∀ a ∈ declarationFixes prolog doctype declared,
        1 < a.rank := by
      decide
    exact ⟨((pairwise_declarationFixes _ _ _).imp And.right).filter _,
      fun a ha => hall _ _ _ a (List.mem_filter.mp ha).1⟩
  refine List.pairwise_append.mpr ⟨hclosers.1, hdeclarations.1, fun a ha b hb => ?_⟩
  have hrank := hclosers.2 a ha
  have hrank' := hdeclarations.2 b hb
  rw [PlannedFix.Before, ← Bool.not_eq_true, PlannedFix.inOrder_iff, PlannedFix.inOrder_iff]
  omega

end Scan

/-- A fix has the first group exactly when it has a place. -/
theorem PlannedFix.rank_eq_zero_iff {a : PlannedFix} :
    a.rank = 0 ↔ a.fix.position?.isSome = true := by
  obtain ⟨fix, code, line, column⟩ := a
  cases fix <;> simp [rank, Fix.position?]

/-- Where what has a property cannot come after what does not, it comes first. -/
theorem eq_filter_append_filter {α : Type} {p : α → Bool} {l : List α}
    (h : l.Pairwise fun a b => p b = true → p a = true) :
    l = l.filter p ++ l.filter (!p ·) := by
  induction l with
  | nil => rfl
  | cons a l ih =>
      rw [List.pairwise_cons] at h
      cases ha : p a with
      | true => rw [List.filter_cons_of_pos ha, List.filter_cons_of_neg (by simp [ha]),
          List.cons_append, ← ih h.2]
      | false =>
          have hnone : l.filter p = [] := by
            refine List.filter_eq_nil_iff.mpr fun b hb hpb => ?_
            rw [h.1 b hb hpb] at ha
            cases ha
          have hrest := ih h.2
          rw [hnone, List.nil_append] at hrest
          rw [List.filter_cons_of_neg (by simp [ha]), hnone,
            List.filter_cons_of_pos (by simp [ha]), List.nil_append, ← hrest]

/-- The planned fix for an issue has its code. -/
theorem Issue.code_of_planned? {i : Issue} {a : PlannedFix} (h : i.planned? = some a) :
    a.code = i.code := by
  obtain ⟨fix, -, rfl⟩ := Option.map_eq_some_iff.mp h
  rfl

/-- An issue that is not fixable has no fix. -/
theorem Issue.planned?_of_not_fixable {i : Issue} (h : i.fixable = false) : i.planned? = none := by
  simp [planned?, fix?, h]

namespace RepairPlan

/-- The fixes without places are those for all permitted issues that have such fixes: nothing is in
the way of a fix without a place. -/
theorem Allots.perm_filter_isNone {policy : RepairPolicy} {issues taken : List Issue}
    {plan : RepairPlan} (h : Allots policy issues taken plan) :
    (plan.fixes.filter (·.fix.position?.isNone)).Perm ((issues.filterMap Issue.planned?).filter
      fun a => policy.permits a.code && a.fix.position?.isNone) := by
  have htaken : (taken.filterMap Issue.planned?).Perm plan.fixes := by
    have hsome := h.fixes.filterMap id
    rwa [List.filterMap_map, List.filterMap_map, Function.id_comp, Function.id_comp,
      List.filterMap_some] at hsome
  have hpermitted : plan.fixes.filter (·.fix.position?.isNone) = plan.fixes.filter
      fun a => policy.permits a.code && a.fix.position?.isNone := by
    refine List.filter_congr fun a ha => ?_
    obtain ⟨i, hi, hplanned⟩ := h.exists_of_mem_fixes ha
    rw [Issue.code_of_planned? hplanned, h.permitted i hi, Bool.true_and]
  have hdeferred : (plan.deferred.filterMap Issue.planned?).filter
      (fun a => policy.permits a.code && a.fix.position?.isNone) = [] := by
    refine List.filter_eq_nil_iff.mpr fun a ha => ?_
    obtain ⟨i, hi, hplanned⟩ := List.mem_filterMap.mp ha
    obtain ⟨-, -, -, -, -, -, fix, hfix, p, -, f, hfootprint, -⟩ := h.deferred i hi
    rw [Issue.planned?, hfix] at hplanned
    obtain rfl := Option.some.inj hplanned
    obtain ⟨q, hq, -⟩ := Option.map_eq_some_iff.mp hfootprint
    simp [hq]
  have hwithheld : (plan.withheld.filterMap Issue.planned?).filter
      (fun a => policy.permits a.code && a.fix.position?.isNone) = [] := by
    refine List.filter_eq_nil_iff.mpr fun a ha => ?_
    obtain ⟨i, hi, hplanned⟩ := List.mem_filterMap.mp ha
    rw [h.withheld, List.mem_filter, RepairPolicy.withholds, Bool.and_eq_true,
      Bool.not_eq_true'] at hi
    simp [Issue.code_of_planned? hplanned, hi.2.2]
  have hfixable : (issues.filter (·.fixable)).filterMap Issue.planned? =
      issues.filterMap Issue.planned? := by
    rw [List.filterMap_filter]
    refine List.filterMap_congr fun i _ => ?_
    cases hi : i.fixable with
    | true => rfl
    | false => exact (Issue.planned?_of_not_fixable hi).symm
  have hall := (h.partition.filterMap Issue.planned?).filter
    fun a => policy.permits a.code && a.fix.position?.isNone
  rw [List.filterMap_append, List.filterMap_append, List.filter_append, List.filter_append,
    hdeferred, hwithheld, List.append_nil, List.append_nil, hfixable] at hall
  rw [hpermitted]
  exact (htaken.filter _).symm.trans hall

variable {policy : RepairPolicy} {t : Text}

/-- The issues that plan fixes without places are those of the elements left open and those of the
whole document. -/
theorem perm_filter_planned? (t : Text) :
    (((analyze t).filterMap Issue.planned?).filter (·.fix.position?.isNone)).Perm
      (((analyze t).filter (·.kind.isLeftOpen)).filterMap Issue.planned? ++
        ((analyze t).filter (·.kind.isDocumentLevel)).filterMap Issue.planned?) := by
  have hkinds : ((analyze t).filterMap Issue.planned?).filter (·.fix.position?.isNone) =
      ((analyze t).filter fun i => i.kind.isLeftOpen || i.kind.isDocumentLevel).filterMap
        Issue.planned? := by
    rw [List.filter_filterMap, List.filterMap_filter]
    refine List.filterMap_congr fun i hi => ?_
    cases hfixable : i.fixable with
    | false => simp [Issue.planned?_of_not_fixable hfixable]
    | true =>
        obtain ⟨fix, hfix, hplace⟩ := exists_fix?_of_mem_analyze hi hfixable
        rw [Issue.planned?, hfix, Option.map_some, Option.filter_some, hplace]
  have hleft : ∀ kind : IssueKind,
      (kind.isLeftOpen && (kind.isLeftOpen || kind.isDocumentLevel)) = kind.isLeftOpen := by
    intro kind
    cases kind.isLeftOpen <;> rfl
  have hright : ∀ kind : IssueKind,
      (!kind.isLeftOpen && (kind.isLeftOpen || kind.isDocumentLevel)) = kind.isDocumentLevel := by
    intro kind
    cases kind with
    | unclosedTag name cause => cases cause <;> rfl
    | _ => rfl
  have hsplit := List.filter_append_perm (fun i : Issue => i.kind.isLeftOpen)
    ((analyze t).filter fun i => i.kind.isLeftOpen || i.kind.isDocumentLevel)
  simp only [List.filter_filter, hleft, hright] at hsplit
  rw [hkinds, ← List.filterMap_append]
  exact hsplit.symm.filterMap _

/-- The fixes without places are the permitted closing tags and declarations. -/
theorem filter_isNone_fixes (policy : RepairPolicy) (t : Text) :
    (ofIssues policy (analyze t)).fixes.filter (·.fix.position?.isNone) =
      (scan t).plannedClosers policy ++ (scan t).plannedDeclarations policy := by
  obtain ⟨taken, h⟩ := exists_allots_analyze policy t
  have hperm : ((ofIssues policy (analyze t)).fixes.filter (·.fix.position?.isNone)).Perm
      ((scan t).plannedClosers policy ++ (scan t).plannedDeclarations policy) := by
    refine h.perm_filter_isNone.trans ?_
    rw [← List.filter_filter]
    exact ((perm_filter_planned? t).filter _).trans (Scan.perm_planned policy (scan t))
  have hsorted := (PlannedFix.pairwise_mergeSort
    ((analyze t).foldl (add policy) {}).fixes).filter (·.fix.position?.isNone)
  rw [← PlannedFix.mergeSort_eq_of_perm hperm.symm (Scan.pairwise_planned policy t)]
  exact (List.mergeSort_of_pairwise hsorted).symm

/-- Of two planned fixes with places the one with the later place comes first. -/
theorem before_of_inOrder {a b : PlannedFix} {p q : Position} (ha : a.fix.position? = some p)
    (hb : b.fix.position? = some q) (hp : a.line = some p.line ∧ a.column = some p.column)
    (hq : b.line = some q.line ∧ b.column = some q.column) (horder : a.inOrder b = true)
    (hfree : a.blocks b.fix = false) : q.Before p := by
  have hne : p ≠ q := by
    rintro rfl
    rw [PlannedFix.blocks_iff.mpr ⟨p, Fix.claims_position ha, Fix.claims_position hb⟩] at hfree
    cases hfree
  have hrank := PlannedFix.rank_eq_zero_iff.mpr (Option.isSome_of_eq_some ha)
  have hrank' := PlannedFix.rank_eq_zero_iff.mpr (Option.isSome_of_eq_some hb)
  simp only [PlannedFix.inOrder_iff, hp.1, hp.2, hq.1, hq.2, hrank, hrank', Option.getD_some,
    Nat.lt_irrefl, false_or, true_and] at horder
  rcases horder with hline | ⟨hline, hcolumn⟩
  · exact .inl hline
  · refine .inr ⟨hline.symm, Nat.lt_of_le_of_ne hcolumn fun heq => hne ?_⟩
    obtain ⟨line, column⟩ := p
    obtain ⟨line', column'⟩ := q
    simp_all

/-- The fixes with places come before the others. -/
theorem fixes_eq_append (policy : RepairPolicy) (t : Text) :
    (ofIssues policy (analyze t)).fixes =
      (ofIssues policy (analyze t)).fixes.filter (·.fix.position?.isSome) ++
        ((scan t).plannedClosers policy ++ (scan t).plannedDeclarations policy) := by
  have hordered : (ofIssues policy (analyze t)).fixes.Pairwise fun a b =>
      b.fix.position?.isSome = true → a.fix.position?.isSome = true := by
    refine (pairwise_fixes policy (analyze t)).imp fun {a b} h hb => ?_
    have horder := PlannedFix.inOrder_iff.mp h.1
    rw [← PlannedFix.rank_eq_zero_iff] at hb ⊢
    omega
  have hsplit := eq_filter_append_filter hordered
  simp only [Option.not_isSome] at hsplit
  rwa [filter_isNone_fixes] at hsplit

/-- Of the planned fixes with places, one with a later place comes before one with an earlier
place, and no two have the same place. -/
theorem pairwise_position_fixes (policy : RepairPolicy) (issues : List Issue) :
    (ofIssues policy issues).fixes.Pairwise fun a b =>
      ∀ p ∈ a.fix.position?, ∀ q ∈ b.fix.position?, q.Before p := by
  refine (pairwise_fixes policy issues).imp_of_mem fun {a b} ha hb h p hp q hq => ?_
  exact before_of_inOrder hp hq (position_of_mem_fixes ha hp) (position_of_mem_fixes hb hq) h.1 h.2

/-- A plan is not empty when a fixable issue is permitted. -/
theorem Allots.fixes_ne_nil {policy : RepairPolicy} {issues taken : List Issue} {plan : RepairPlan}
    {i : Issue} (h : Allots policy issues taken plan) (hi : i ∈ issues)
    (hfixable : i.fixable = true)
    (hpermits : policy.permits i.code = true) : plan.fixes ≠ [] := by
  have hmem := h.partition.mem_iff.mpr (List.mem_filter.mpr ⟨hi, hfixable⟩)
  rw [List.mem_append, List.mem_append] at hmem
  rcases hmem with (htaken | hdeferred) | hwithheld
  · intro hnil
    have hnone := h.fixes.mem_iff.mp (List.mem_map_of_mem htaken)
    rw [hnil] at hnone
    cases hnone
  · obtain ⟨-, -, -, planned, hplanned, -⟩ := h.deferred i hdeferred
    exact List.ne_nil_of_mem hplanned
  · rw [h.withheld, List.mem_filter, RepairPolicy.withholds, hpermits] at hwithheld
    simp at hwithheld

/-- How a plan allots the issues of a document and orders its fixes. Each fixable issue is taken,
deferred or withheld. The planned fixes claim no column twice, and there are some when a fixable
issue is permitted. Those with places come first, from the last place to the first one, then the
permitted closing tags of the elements left open, the innermost first, and then the permitted
declarations that are missing. -/
theorem exists_allots_placed (policy : RepairPolicy) (t : Text) :
    ∃ taken placed, (ofIssues policy (analyze t)).Allots policy (analyze t) taken ∧
      ((ofIssues policy (analyze t)).fixes.Pairwise fun a b =>
        ∀ p, ¬(a.fix.Claims p ∧ b.fix.Claims p)) ∧
      ((∃ i ∈ analyze t, i.fixable = true ∧ policy.permits i.code = true) →
        (ofIssues policy (analyze t)).fixes ≠ []) ∧
      (ofIssues policy (analyze t)).fixes = placed ++
        ((scan t).plannedClosers policy ++ (scan t).plannedDeclarations policy) ∧
      (∀ a ∈ placed, ∃ p, a.fix.position? = some p ∧
        a.line = some p.line ∧ a.column = some p.column) ∧
      placed.Pairwise fun a b => ∀ p ∈ a.fix.position?, ∀ q ∈ b.fix.position?, q.Before p := by
  obtain ⟨taken, h⟩ := exists_allots_analyze policy t
  refine ⟨taken, _, h, ?_, ?_, fixes_eq_append policy t, fun a ha => ?_,
    (pairwise_position_fixes policy (analyze t)).filter _⟩
  · refine (pairwise_fixes policy (analyze t)).imp fun {a b} hab p hclaims => ?_
    rw [PlannedFix.blocks_iff.mpr ⟨p, hclaims⟩] at hab
    cases hab.2
  · rintro ⟨i, hi, hfixable, hpermits⟩
    exact h.fixes_ne_nil hi hfixable hpermits
  · obtain ⟨hmem, hplace⟩ := List.mem_filter.mp ha
    obtain ⟨p, hp⟩ := Option.isSome_iff_exists.mp hplace
    exact ⟨p, hp, position_of_mem_fixes hmem hp⟩

end RepairPlan

end MarkupRepair
