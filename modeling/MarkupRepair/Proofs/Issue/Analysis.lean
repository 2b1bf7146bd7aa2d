import MarkupRepair.Issue.Analysis

/-!
# The issues of a document

Analysing a document sorts the issues that the checks find. What the sort leaves alone is
stated here: which issues there are, and whether there are any. Each kind of issue is found by one
check only, so the issues of such kinds are those that this check finds.
-/

namespace MarkupRepair

/-- The issues of a scanned document in the order of the checks. -/
def Scan.foundIssues (s : Scan) : List Issue :=
  s.declarationIssues ++ s.balanceIssues ++ s.attributeIssues ++ s.entityIssues

/-- The issues of a document are those that the checks find. -/
theorem mem_analyze_iff {t : Text} {i : Issue} : i ∈ analyze t ↔ i ∈ (scan t).foundIssues :=
  List.mem_mergeSort

/-- A document has no issues exactly when the checks find none. -/
theorem analyze_eq_nil_iff {t : Text} : analyze t = [] ↔ (scan t).foundIssues = [] := by
  simp only [List.eq_nil_iff_forall_not_mem, mem_analyze_iff]

/-- What can be wrong with an attribute: its quotes, its extent, or that it has no quotes. -/
theorem AttributeToken.kind_of_fault? {a : AttributeToken} {kind : IssueKind}
    (h : a.fault? = some kind) : (∃ quotes, kind = .corruptedQuotes a.name quotes) ∨
      kind = .malformedAttribute a.name a.raw ∨ kind = .unquotedAttribute a.name a.raw := by
  unfold fault? at h
  cases hquoting : a.quoting with
  | double | single =>
      rw [hquoting] at h
      cases h
  | corrupted quotes =>
      rw [hquoting] at h
      exact Or.inl ⟨quotes, (Option.some.inj h).symm⟩
  | unterminated =>
      rw [hquoting] at h
      exact Or.inr (Or.inl (Option.some.inj h).symm)
  | unquoted =>
      rw [hquoting] at h
      rw [← Option.some.inj h]
      split
      · exact Or.inr (Or.inl rfl)
      · exact Or.inr (Or.inr rfl)

/-- The faults of a sequence of tags are those of the first tag and those of the rest. -/
theorem Balance.faultsFrom_cons (stack : List TagToken) (tag : TagToken) (rest : List TagToken) :
    faultsFrom stack (tag :: rest) =
      (step stack tag).2 ++ faultsFrom (step stack tag).1 rest := rfl

/-- The checks of a document. -/
inductive DocumentCheck where
  /-- The check of the declarations and of the root. -/
  | declarations
  /-- The tag balance. -/
  | balance
  /-- The check of the attributes. -/
  | attributes
  /-- The check of the references. -/
  | references
  deriving DecidableEq

/-- The check that finds issues of a kind. -/
def IssueKind.foundBy : IssueKind → DocumentCheck
  | .missingXmlDeclaration _ | .missingDoctype _ | .missingNamespace => .declarations
  | .unclosedTag _ _ | .selfClosedContainer _ => .balance
  | .unquotedAttribute _ _ | .malformedAttribute _ _ | .corruptedQuotes _ _ => .attributes
  | .invalidEntity _ => .references

/-- The kinds that concern the whole document are those of the declarations and of the root. -/
theorem IssueKind.isDocumentLevel_iff {kind : IssueKind} :
    kind.isDocumentLevel = true ↔ kind.foundBy = .declarations := by
  cases kind <;> simp [isDocumentLevel, foundBy]

/-- The balance finds tags without their counterpart and self-closed containers. -/
theorem Balance.foundBy_of_mem_step {stack : List TagToken} {tag : TagToken} {fault : BalanceFault}
    (h : fault ∈ (step stack tag).2) : fault.kind.foundBy = .balance := by
  unfold step at h
  cases hkind : tag.kind with
  | selfClosing =>
      simp only [hkind] at h
      split at h
      · rw [List.mem_singleton.mp h]
        rfl
      · cases h
  | opening =>
      simp only [hkind] at h
      split at h <;> cases h
  | closing =>
      simp only [hkind] at h
      split at h
      · cases h
      · split at h
        · obtain ⟨frame, -, rfl⟩ := List.mem_map.mp h
          rfl
        · rw [List.mem_singleton.mp h]
          rfl

theorem Balance.foundBy_of_mem_faultsFrom {stack tags : List TagToken} {fault : BalanceFault}
    (h : fault ∈ faultsFrom stack tags) : fault.kind.foundBy = .balance := by
  induction tags generalizing stack with
  | nil =>
      obtain ⟨frame, -, rfl⟩ := List.mem_map.mp h
      rfl
  | cons tag rest ih =>
      rw [faultsFrom_cons, List.mem_append] at h
      rcases h with h | h
      · exact foundBy_of_mem_step h
      · exact ih h

namespace Scan

variable {s : Scan} {i : Issue}

/-- The issues that a check finds. -/
def foundBy (s : Scan) : DocumentCheck → List Issue
  | .declarations => s.declarationIssues
  | .balance => s.balanceIssues
  | .attributes => s.attributeIssues
  | .references => s.entityIssues

/-- An issue of a declaration or of the root is one without a place. -/
theorem exists_of_mem_declarationIssues (h : i ∈ s.declarationIssues) :
    ∃ kind, i = s.issue kind none ∧ kind.foundBy = .declarations := by
  simp only [declarationIssues, List.mem_append] at h
  rcases h with (h | h) | h
  all_goals
    split at h
    · cases h
    · exact ⟨_, List.mem_singleton.mp h, rfl⟩

/-- What a check finds is of its kinds. -/
theorem foundBy_of_mem (check : DocumentCheck) (h : i ∈ s.foundBy check) :
    i.kind.foundBy = check := by
  cases check with
  | declarations =>
      obtain ⟨kind, rfl, hkind⟩ := exists_of_mem_declarationIssues h
      exact hkind
  | balance =>
      obtain ⟨fault, hfault, rfl⟩ := List.mem_map.mp h
      exact Balance.foundBy_of_mem_faultsFrom hfault
  | attributes =>
      obtain ⟨a, -, hfault⟩ := List.mem_filterMap.mp h
      obtain ⟨kind, hkind, rfl⟩ := Option.map_eq_some_iff.mp hfault
      rcases a.kind_of_fault? hkind with ⟨quotes, rfl⟩ | rfl | rfl <;> rfl
  | references =>
      obtain ⟨e, -, rfl⟩ := List.mem_map.mp h
      rfl

/-- The issues of kinds that one check finds are those that it finds. -/
theorem perm_filter_of_foundBy (s : Scan) {check : DocumentCheck} {p : IssueKind → Bool}
    (hp : ∀ kind, p kind = true → kind.foundBy = check) :
    (s.issues.filter (p ·.kind)).Perm ((s.foundBy check).filter (p ·.kind)) := by
  have hnone : ∀ other, other ≠ check → (s.foundBy other).filter (p ·.kind) = [] := by
    intro other hne
    refine List.filter_eq_nil_iff.mpr fun i hi hkind => hne ?_
    rw [← foundBy_of_mem other hi, hp _ hkind]
  have hall : s.foundIssues = s.foundBy .declarations ++ s.foundBy .balance ++
      s.foundBy .attributes ++ s.foundBy .references := rfl
  refine ((List.mergeSort_perm s.foundIssues _).filter _).trans ?_
  rw [hall, List.filter_append, List.filter_append, List.filter_append]
  cases check <;> simp [hnone]

end Scan

end MarkupRepair
