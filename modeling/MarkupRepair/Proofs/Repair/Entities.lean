import MarkupRepair.Proofs.Defect.Mending
import MarkupRepair.Proofs.Markup.References
import MarkupRepair.Proofs.Repair.Permission
import MarkupRepair.Proofs.Repair.Sources

/-!
# Repairs of references alone

A repair that may touch references only completes all of them in one pass, and nothing else. Every
open reference outside of the sections has a site, and the fixes at these sites are compatible,
because no name goes on into the next reference. Applied from the last to the first, each finds its
reference as it was read, so together they lead to the completed text, which has no open reference.
-/

namespace MarkupRepair

open RepairPlan

/-- The sites of the open references outside of the sections, in marked characters that follow a
text. -/
def openSites (before : Text) : List (Char × Mark) → List Site
  | [] => []
  | (c, m) :: r =>
      let e := EntityText.read (r.map (·.1))
      (if c = '&' ∧ m = .plain ∧ e.terminated = false then [⟨before, .openReference e.text⟩]
        else []) ++ openSites (before ++ [c]) r

/-- The sites of the ampersands outside of comments and CDATA sections that have no name, or a name
without a semicolon. -/
def Text.openReferences (t : Text) : List Site := openSites [] (t.zip (marks t))

/-- The fix of an open reference completes it behind its name. -/
theorem editAt_openReference {e : EntityText} {name rest rest' : Text}
    (he : EntityText.read (name ++ rest) = e) (hname : ∀ c ∈ name, isEntityNameChar c = true)
    (hstop : rest.head?.any isEntityNameChar = false) (hhead : rest'.head? = rest.head?)
    (hopen : e.terminated = false) (p : Position) (before : Option Char) :
    (Defect.fix p (.openReference e.text)).editAt before ('&' :: (name ++ rest')) =
      some ('&' :: (name ++ (e.completion ++ rest'))) := by
  have hread := he.symm.trans (EntityText.read_append_of_head? hname hstop)
  have hsemicolon : name ≠ [] → rest'.head? ≠ some ';' := by
    intro hne
    have hnone := EntityText.semicolon_eq_false hopen (by rwa [hread])
    rw [hread] at hnone
    simpa [hhead] using hnone
  rw [EntityText.completion_of_open hopen, hread]
  exact Fix.terminateAt_append (hhead ▸ hstop) hsemicolon

section Sites

variable {a b later : List (Char × Mark)} {before : Text}

/-- Characters that start no reference have no sites. -/
theorem openSites_append_of_not_mem (h : ('&', Mark.plain) ∉ a) (before : Text) :
    openSites before (a ++ b) = openSites (before ++ a.map (·.1)) b := by
  induction a generalizing before with
  | nil => rw [List.nil_append, List.map_nil, List.append_nil]
  | cons p a ih =>
      rw [List.mem_cons, not_or] at h
      have hp : ∀ q, ¬ (p.1 = '&' ∧ p.2 = .plain ∧ q) := fun q heq =>
        h.1 (Prod.ext heq.1.symm heq.2.1.symm)
      rw [List.cons_append, openSites, if_neg (hp _), List.nil_append, ih h.2, List.map_cons,
        List.append_assoc, List.singleton_append]

theorem prefix_of_mem_openSites {s : Site} (h : s ∈ openSites before later) :
    before <+: s.before := by
  induction later generalizing before with
  | nil => cases h
  | cons p r ih =>
      rcases List.mem_append.mp h with h | h
      · split at h
        · rw [List.mem_singleton.mp h]
        · cases h
      · exact (List.prefix_append _ _).trans (ih h)

/-- The sites of open references come in reading order, each past the name of the one before. -/
theorem inStretch_openSites (before : Text) (later : List (Char × Mark)) :
    InStretch (openSites before later) before (before ++ later.map (·.1)) := by
  induction later generalizing before with
  | nil => exact .nil _ _
  | cons p r ih =>
      obtain ⟨c, m⟩ := p
      have hrest := ih (before ++ [c])
      have hlimit : before ++ [c] ++ r.map (·.1) = before ++ ((c, m) :: r).map (·.1) := by simp
      rw [hlimit] at hrest
      rw [openSites]
      split
      next hopen =>
        obtain ⟨rfl, rfl, hopen⟩ := hopen
        obtain ⟨a, b, rfl, hname, hstop⟩ := exists_name r
        have hread := EntityText.read_append_of_head? hname hstop
        rw [← List.map_append] at hread
        have hsite : InStretch [⟨before, .openReference (EntityText.read ((a ++ b).map
            (·.1))).text⟩] before (before ++ '&' :: a.map (·.1)) := by
          refine .singleton List.prefix_rfl ⟨'&' :: a.map (·.1), rfl, ?_⟩
          rw [hread]
          have hamp : '&'.utf8Size = 1 := rfl
          simp only [Defect.reach, EntityText.text, Text.size_cons, hamp]
          omega
        refine hsite.append ⟨hrest.pairwise, fun s hs => ?_, hrest.ends⟩ ?_ ?_
        · rw [openSites_append_of_not_mem (ampersand_not_mem hname)] at hs
          simpa using prefix_of_mem_openSites hs
        · exact List.prefix_append _ _
        · simp
      next =>
        exact ⟨hrest.pairwise, fun s hs => (List.prefix_append _ _).trans (hrest.starts s hs),
          hrest.ends⟩

/-- The fixes at the sites of open references, from the last to the first, complete them. -/
theorem applies_openSites (before : Text) (later : List (Char × Mark)) :
    Applies ((openSites before later).reverse.map Site.planned) (before ++ later.map (·.1))
      (before ++ completedFrom later) := by
  induction later generalizing before with
  | nil => exact .nil _
  | cons p r ih =>
      obtain ⟨c, m⟩ := p
      have hrest := ih (before ++ [c])
      rw [List.append_assoc, List.append_assoc, List.singleton_append, List.singleton_append]
        at hrest
      rw [openSites, List.reverse_append, List.map_append]
      refine hrest.append ?_
      by_cases hplain : c = '&' ∧ m = .plain
      · obtain ⟨rfl, rfl⟩ := hplain
        obtain ⟨a, b, rfl, hname, hstop⟩ := exists_name r
        rw [completedFrom_reference hname hstop,
          completedFrom_append_of_not_mem (ampersand_not_mem hname)]
        generalize he : EntityText.read ((a ++ b).map (·.1)) = e
        cases hterminated : e.terminated with
        | true =>
            rw [EntityText.completion_of_terminated hterminated]
            simpa using Applies.nil _
        | false =>
            rw [List.map_append] at he
            have hedit := editAt_openReference he hname hstop (head?_completedFrom b) hterminated
              (Text.endPosition before) before.getLast?
            simpa using Piece.applies_singleton (s := ⟨before, .openReference e.text⟩) hedit
      · rw [completedFrom, if_neg hplain, if_neg (fun h => hplain ⟨h.1, h.2.1⟩)]
        exact .nil _

end Sites

section Issues

/-- The issues of the open references of segments that follow a text are those of their sites. -/
theorem Segment.WellCut.map_openFrom {segments : List Segment} (h : Segment.WellCut segments)
    {before text : Text} (htext : text = before ++ Segment.writtenAll segments)
    (hasDoctype : Bool) :
    (EntityText.openFrom (Text.size before) (Segment.maskedAll segments)).map (fun e =>
        classify hasDoctype (.invalidEntity e.2.text)
          (some ((LineIndex.ofText text).position e.1))) =
      (openSites before (segments.flatMap Segment.marked)).map (Site.issue hasDoctype) := by
  induction h generalizing before with
  | nil => rfl
  | @plain c rest _ hrest ih =>
      have hnext := @ih (before ++ [c]) (by simpa using htext)
      rw [Text.size_append, Text.size_cons, Text.size_nil, Nat.add_zero] at hnext
      have hmarked : (Segment.plain c :: rest).flatMap Segment.marked =
          (c, .plain) :: rest.flatMap Segment.marked := rfl
      have hread : EntityText.read ((rest.flatMap Segment.marked).map (·.1)) =
          EntityText.read (Segment.maskedAll rest) := by
        rw [hrest.map_fst_marked, hrest.read_maskedAll]
      rw [hmarked, openSites, hread, List.map_append, ← hnext, Segment.maskedAll_plain_cons]
      by_cases hc : c = '&'
      · subst hc
        cases hterminated : (EntityText.read (Segment.maskedAll rest)).terminated with
        | true => simp [EntityText.openFrom_of_terminated hterminated]
        | false =>
            have hposition : (LineIndex.ofText text).position (Text.size before) =
                Text.endPosition before := by
              rw [htext, LineIndex.position_ofText_append]
            rw [EntityText.openFrom, EntityText.all, if_pos rfl,
              List.filter_cons_of_pos (by simp [hterminated])]
            simp [hposition, Site.issue, Site.position, Defect.kind, EntityText.openFrom]
      · simp [EntityText.openFrom_cons_of_ne hc, hc]
  | @hidden s rest hreads _ ih =>
      have hnext := @ih (before ++ s) (by simpa using htext)
      rw [Text.size_append] at hnext
      rw [Segment.openFrom_hidden, hnext, List.flatMap_cons,
        openSites_append_of_not_mem (Segment.ampersand_not_mem_hidden s),
        Segment.map_fst_hidden hreads]

/-- The issues of the references are those of the sites. -/
theorem entityIssues_scan (t : Text) :
    (scan t).entityIssues = t.openReferences.map (Site.issue (scan t).doctype.isSome) := by
  obtain ⟨segments, hcut, rfl, -⟩ := Segment.exists_wellCut t
  rw [Text.openReferences, hcut.zip_marks, ← hcut.map_openFrom (List.nil_append _).symm,
    ← hcut.mask_eq, Scan.entityIssues, scan, List.filter_map, List.map_map]
  rfl

/-- The issues of references are those that the check of the references finds. -/
theorem Scan.perm_filter_invalidEntity (s : Scan) :
    (s.issues.filter (·.code == "invalid_entity")).Perm s.entityIssues := by
  have hfound : ∀ kind : IssueKind,
      (kind.code == "invalid_entity") = true ↔ kind.foundBy = .references := by
    intro kind
    cases kind <;> simp [IssueKind.code, IssueKind.foundBy]
  have hall : s.entityIssues.filter (·.code == "invalid_entity") = s.entityIssues :=
    List.filter_eq_self.mpr fun i hi =>
      (hfound i.kind).mpr (foundBy_of_mem .references hi)
  have hperm := s.perm_filter_of_foundBy fun kind => (hfound kind).mp
  exact hperm.trans (List.Perm.of_eq hall)

end Issues

section Repairs

variable {policy : RepairPolicy}

/-- What a policy that permits the issues of references only plans: the fixes at the sites of the
open references, from the last to the first. -/
theorem fixes_ofIssues_references
    (hpolicy : ∀ code ∈ IssueKind.allCodes, policy.permits code = (code == "invalid_entity"))
    (t : Text) :
    (ofIssues policy (analyze t)).fixes = t.openReferences.reverse.map Site.planned := by
  have hpairwise := (inStretch_openSites [] (t.zip (marks t))).pairwise_planned
  refine fixes_ofIssues ?_ (hpairwise.imp And.left) (hpairwise.imp And.right)
  have hpermits : (fun i : Issue => policy.permits i.code) = (·.code == "invalid_entity") :=
    funext fun i => hpolicy i.code i.kind.code_mem_allCodes
  have hissues := ((scan t).perm_filter_invalidEntity).filterMap Issue.planned?
  rw [entityIssues_scan, Site.filterMap_planned?_map_issue] at hissues
  rw [hpermits, List.map_reverse]
  exact (List.reverse_perm _).trans hissues.symm

/-- No issue of a completed text is that of a reference. -/
theorem code_ne_of_mem_analyze_completed {t : Text} {i : Issue} (hi : i ∈ analyze t.completed) :
    i.code ≠ "invalid_entity" := by
  have hnone : (scan t.completed).entityIssues = [] := by
    have hopen : (scan t.completed).entities.filter (fun e => !e.terminated) =
        (EntityText.openFrom 0 (mask t.completed)).map
          (EntityToken.ofText (LineIndex.ofText t.completed)) := List.filter_map
    rw [Scan.entityIssues, hopen, Segment.openFrom_mask_completed]
    rfl
  intro hcode
  have hissues := (scan t.completed).perm_filter_invalidEntity
  rw [hnone] at hissues
  have hmem := hissues.mem_iff.mp (List.mem_filter.mpr ⟨hi, beq_iff_eq.mpr hcode⟩)
  cases hmem

/-- A repair that is permitted the issues of references only completes the text: it applies the fix
of every open reference, the last one first, and nothing else, and none of these issues is left. -/
theorem repair_completes_references {options : RepairOptions}
    (hpolicy : ∀ code ∈ IssueKind.allCodes,
      options.policy.permits code = (code == "invalid_entity")) (t : Text) :
    let r := repair options t
    r.content = t.completed ∧
      r.applied = (t.openReferences.reverse.map Site.planned).map PlannedFix.applied ∧
        r.fixesApplied = t.openReferences.length ∧ r.passes ≤ 1 ∧
          ∀ i ∈ analyze r.content, i.code ≠ "invalid_entity" := by
  have happlies := applies_openSites [] (t.zip (marks t))
  rw [List.map_fst_zip (by simp [marks]), List.nil_append, List.nil_append] at happlies
  have hdone : (ofIssues options.policy (analyze t.completed)).isEmpty = true := by
    refine isEmpty_ofIssues fun i hi _ => ?_
    rw [hpolicy i.code i.kind.code_mem_allCodes, beq_eq_false_iff_ne]
    exact code_ne_of_mem_analyze_completed hi
  have hrepair := repair_of_applies (fixes_ofIssues_references hpolicy t) happlies hdone
  dsimp only
  rw [hrepair]
  refine ⟨rfl, rfl, ?_, ?_, fun i hi => code_ne_of_mem_analyze_completed hi⟩
  · simp
  · split
    · exact Nat.zero_le 1
    · exact Nat.le_refl 1

/-- References in a text, a comment and a CDATA section, three of them open and plain: the policy
that allows them only is applied. -/
theorem repair_completes_references_mixedReferences :
    (∀ code ∈ IssueKind.allCodes,
      RepairPolicy.permits { allow := ["invalid_entity"] } code = (code == "invalid_entity")) ∧
      let r := repair { policy := { allow := ["invalid_entity"] } }
        "<p a=\"&x\">&amp;&<!--& --><![CDATA[&y]]>&lt b&;".toList
      r.content = "<p a=\"&x;\">&amp;&amp;<!--& --><![CDATA[&y]]>&lt; b&amp;;".toList ∧
        r.fixesApplied = 4 ∧ r.passes ≤ 1 ∧
          ∀ i ∈ analyze r.content, i.code ≠ "invalid_entity" := by
  have hpolicy : ∀ code ∈ IssueKind.allCodes,
      RepairPolicy.permits { allow := ["invalid_entity"] } code = (code == "invalid_entity") := by
    decide +kernel
  have hcontent : Text.completed "<p a=\"&x\">&amp;&<!--& --><![CDATA[&y]]>&lt b&;".toList =
      "<p a=\"&x;\">&amp;&amp;<!--& --><![CDATA[&y]]>&lt; b&amp;;".toList := by
    decide +kernel
  have hcount : (Text.openReferences
      "<p a=\"&x\">&amp;&<!--& --><![CDATA[&y]]>&lt b&;".toList).length = 4 := by
    decide +kernel
  obtain ⟨hresult, -, hfixes, hpasses, hclean⟩ := @repair_completes_references
    { policy := { allow := ["invalid_entity"] } } hpolicy
    "<p a=\"&x\">&amp;&<!--& --><![CDATA[&y]]>&lt b&;".toList
  exact ⟨hpolicy, hresult.trans hcontent, hfixes.trans hcount, hpasses, hclean⟩

end Repairs

end MarkupRepair
