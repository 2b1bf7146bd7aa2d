import MarkupRepair.Proofs.Issue.Places
import MarkupRepair.Proofs.Repair.Rootless

/-!
# What the fixes of a plan come from

Every fix in the plan for a document comes from a token of its scan and carries the place of that
token: an attribute with a fault, a reference that is not terminated, a self-closing container or
an element that was never closed.
-/

namespace MarkupRepair

/-- Whether a fix belongs to a token of a scan, at the place of the token if it has a place. -/
def Fix.BelongsTo (s : Scan) : Fix → Prop
  | .quoteAttribute p name value => ∃ tag ∈ s.tags, ∃ a ∈ tag.attributes,
      a.position = p ∧ a.name = name ∧ a.raw = value ∧
        (a.quoting = .unquoted ∨ a.quoting = .unterminated)
  | .collapseQuotes p name quotes => ∃ tag ∈ s.tags, ∃ a ∈ tag.attributes,
      a.position = p ∧ a.name = name ∧ a.quoting = .corrupted quotes
  | .terminateEntity p entity => ∃ e ∈ s.entities,
      e.position = p ∧ e.text = entity ∧ e.terminated = false
  | .expandSelfClosing p name => ∃ tag ∈ s.tags,
      tag.position = p ∧ tag.name = name ∧ tag.kind = .selfClosing ∧ isContainer name = true
  | .closeElement name => ∃ tag ∈ s.tags, tag.name = name
  | .ensureProlog | .ensureDoctype | .ensureNamespace => True

/-- A fix with a place has the place of its issue. -/
theorem Issue.position_of_fix? {i : Issue} {fix : Fix} {p : Position} (h : i.fix? = some fix)
    (hp : fix.position? = some p) : i.line = some p.line ∧ i.column = some p.column := by
  have hplace : ∀ {place : Option Position} {make : Position → Fix}, place.map make = some fix →
      (∀ q, (make q).position? = some q) → place = some p := by
    intro place make hfix hmake
    obtain ⟨q, hq, rfl⟩ := Option.map_eq_some_iff.mp hfix
    rw [hq, ← hmake q]
    exact hp
  unfold Issue.fix? at h
  split at h
  next =>
    dsimp only at h
    split at h
    case h_5 => cases h
    case h_6 | h_7 | h_8 | h_9 | h_10 =>
      have hissue := hplace h fun _ => rfl
      split at hissue
      next hline hcolumn =>
        obtain rfl := Option.some.inj hissue
        exact ⟨hline, hcolumn⟩
      next => cases hissue
    all_goals
      obtain rfl := Option.some.inj h
      cases hp
  next => cases h

/-- A planned fix with a place has that place. -/
theorem RepairPlan.position_of_mem_fixes {policy : RepairPolicy} {issues : List Issue}
    {planned : PlannedFix} {p : Position} (h : planned ∈ (ofIssues policy issues).fixes)
    (hp : planned.fix.position? = some p) :
    planned.line = some p.line ∧ planned.column = some p.column := by
  obtain ⟨i, -, hplanned, -⟩ := exists_planned_of_mem_fixes h
  obtain ⟨fix, hfix, rfl⟩ := Option.map_eq_some_iff.mp hplanned
  exact Issue.position_of_fix? hfix hp

/-- The fix for an issue of a document belongs to a token. -/
theorem Fix.belongsTo_of_mem_analyze {t : Text} {i : Issue} {fix : Fix} (hi : i ∈ analyze t)
    (hfix : i.fix? = some fix) : fix.BelongsTo (scan t) := by
  rw [mem_analyze_iff, Scan.foundIssues, List.mem_append, List.mem_append, List.mem_append] at hi
  rcases hi with ((hi | hi) | hi) | hi
  · obtain ⟨kind, rfl, hkind⟩ := Scan.exists_of_mem_declarationIssues hi
    cases kind with
    | missingXmlDeclaration | missingDoctype | missingNamespace =>
        obtain rfl := Option.some.inj hfix
        trivial
    | _ => cases hkind
  · obtain ⟨fault, hfault, rfl⟩ := List.mem_map.mp hi
    obtain ⟨tag, htag, hblames⟩ := Balance.exists_blames_of_mem_faults hfault
    cases hblames with
    | closing => cases hfix
    | opening _ cause =>
        cases cause with
        | endOfDocument =>
            obtain rfl := Option.some.inj hfix
            exact ⟨tag, htag, rfl⟩
        | _ => cases hfix
    | container hkind hcontainer =>
        obtain rfl := Option.some.inj hfix
        exact ⟨tag, htag, rfl, rfl, hkind, hcontainer⟩
  · obtain ⟨a, ha, hissue⟩ := List.mem_filterMap.mp hi
    obtain ⟨tag, htag, ha⟩ := List.mem_flatMap.mp ha
    obtain ⟨kind, hkind, rfl⟩ := Option.map_eq_some_iff.mp hissue
    unfold AttributeToken.fault? at hkind
    split at hkind
    next => cases hkind
    next => cases hkind
    next quotes hquoting =>
      obtain rfl := Option.some.inj hkind
      obtain rfl := Option.some.inj hfix
      exact ⟨tag, htag, a, ha, rfl, rfl, hquoting⟩
    next hquoting =>
      obtain rfl := Option.some.inj hkind
      obtain rfl := Option.some.inj hfix
      exact ⟨tag, htag, a, ha, rfl, rfl, rfl, Or.inr hquoting⟩
    next hquoting =>
      obtain rfl := Option.some.inj hkind
      split at hfix
      all_goals
        obtain rfl := Option.some.inj hfix
        exact ⟨tag, htag, a, ha, rfl, rfl, rfl, Or.inl hquoting⟩
  · obtain ⟨e, he, rfl⟩ := List.mem_map.mp hi
    rw [List.mem_filter, Bool.not_eq_true'] at he
    obtain rfl := Option.some.inj hfix
    exact ⟨e, he.1, rfl, rfl, he.2⟩

/-- Every fix in the plan for a document belongs to a token of its scan, and the plan has it at the
place of the token. -/
theorem RepairPlan.belongsTo_of_mem_fixes {policy : RepairPolicy} {t : Text}
    {planned : PlannedFix} (h : planned ∈ (ofIssues policy (analyze t)).fixes) :
    planned.fix.BelongsTo (scan t) := by
  obtain ⟨i, hi, hfix, -⟩ := exists_issue_of_mem_fixes h
  exact Fix.belongsTo_of_mem_analyze hi hfix

/-- The plan for a document whose issues have compatible fixes. -/
theorem RepairPlan.fixes_ofIssues_analyze {policy : RepairPolicy} {t : Text}
    {sorted : List PlannedFix}
    (hperm : sorted.Perm
      (((scan t).foundIssues.filter (policy.permits ·.code)).filterMap Issue.planned?))
    (hcompatible : sorted.Pairwise PlannedFix.Compatible)
    (hsorted : sorted.Pairwise PlannedFix.Before) :
    (ofIssues policy (analyze t)).fixes = sorted := by
  have hissues : (analyze t).Perm (scan t).foundIssues := List.mergeSort_perm _ _
  exact fixes_ofIssues (hperm.trans ((hissues.filter _).filterMap _).symm) hcompatible hsorted

end MarkupRepair
