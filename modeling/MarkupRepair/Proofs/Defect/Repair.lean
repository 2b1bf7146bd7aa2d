import MarkupRepair.Proofs.Defect.Declarations
import MarkupRepair.Proofs.Defect.Issues
import MarkupRepair.Proofs.Defect.Mending

/-!
# Repairs undo defects

A document printed with defects is repaired in one pass. The fixes of all sites are in the plan,
from the last site to the first, and those for the missing declarations follow. What they lead to
is the clean print, in which no check finds anything.
-/

namespace MarkupRepair

open Piece RepairPlan

/-- The fixes for the defects at some sites and for missing declarations, in the order of
application. -/
def fixesOf (prolog doctype declared : Bool) (sites : List Site) : List PlannedFix :=
  sites.reverse.map Site.planned ++ declarationFixes prolog doctype declared

section Plans

variable {prolog doctype declared : Bool}

theorem filterMap_planned?_declarationIssuesOf (prolog doctype declared : Bool) :
    (declarationIssuesOf prolog doctype declared).filterMap Issue.planned? =
      (declarationFixes prolog doctype declared).reverse := by
  cases prolog <;> cases doctype <;> cases declared <;> rfl

/-- The fixes for defects come before those for declarations. -/
theorem Site.planned_before_declaration (s : Site) {q : PlannedFix}
    (hq : q ∈ declarationFixes prolog doctype declared) :
    s.planned.Compatible q ∧ s.planned.Before q := by
  have hall : ∀ q ∈ declarationFixes prolog doctype declared,
      q.fix.footprint? = none ∧ 0 < q.rank := by
    cases prolog <;> cases doctype <;> cases declared <;> decide
  obtain ⟨hfootprint, hrank⟩ := hall q hq
  refine ⟨⟨?_, ?_⟩, ?_, ?_⟩
  · intro hfix
    rw [← hfix, planned, Defect.footprint?_fix] at hfootprint
    cases hfootprint
  · rw [PlannedFix.blocks, hfootprint]
    cases s.planned.fix.footprint? <;> rfl
  · rw [PlannedFix.inOrder_iff, rank_planned]
    exact Or.inl hrank
  · rw [← Bool.not_eq_true, PlannedFix.inOrder_iff, rank_planned]
    omega

/-- The fixes for sites and declarations are compatible and in order. -/
theorem pairwise_fixesOf {sites : List Site} {start limit : Text}
    (h : InStretch sites start limit) (prolog doctype declared : Bool) :
    (fixesOf prolog doctype declared sites).Pairwise fun a b => a.Compatible b ∧ a.Before b := by
  refine List.pairwise_append.mpr ⟨h.pairwise_planned, pairwise_declarationFixes _ _ _, ?_⟩
  intro a ha b hb
  obtain ⟨s, _, rfl⟩ := List.mem_map.mp ha
  exact s.planned_before_declaration hb

/-- What the issues plan, up to order. -/
theorem perm_fixesOf {issues : List Issue} {sites : List Site}
    (h : issues.Perm (declarationIssuesOf prolog doctype declared ++
      sites.map (Site.issue doctype))) :
    (fixesOf prolog doctype declared sites).Perm (issues.filterMap Issue.planned?) := by
  have hfixes := h.filterMap Issue.planned?
  rw [List.filterMap_append, filterMap_planned?_declarationIssuesOf,
    Site.filterMap_planned?_map_issue] at hfixes
  refine List.Perm.trans ?_ hfixes.symm
  rw [fixesOf, List.map_reverse]
  exact ((List.reverse_perm _).append (List.reverse_perm _).symm).trans List.perm_append_comm

end Plans

namespace Rooted

variable {prolog doctype declared : Bool} {form : TagForm} {list : List WrittenAttribute}
  {rest : List Piece}

/-- The plan for a document has the fixes for all its defects. -/
theorem fixes_ofIssues_document (h : Rooted declared form list rest) {policy : RepairPolicy}
    (hpolicy : ∀ code ∈ IssueKind.allCodes, policy.permits code = true) :
    (ofIssues policy
      (analyze (document prolog doctype (tag form "html".toList list :: rest)))).fixes =
        fixesOf prolog doctype declared
          (sitesAll (headerLines prolog doctype) (tag form "html".toList list :: rest)) := by
  have hpairwise := pairwise_fixesOf
    (inStretch_sitesAll (headerLines prolog doctype) (tag form "html".toList list :: rest))
    prolog doctype declared
  refine fixes_ofIssues ?_ (hpairwise.imp And.left) (hpairwise.imp And.right)
  rw [List.filter_eq_self.mpr fun i _ => hpolicy _ i.kind.code_mem_allCodes]
  exact perm_fixesOf ((List.mergeSort_perm _ _).trans h.foundIssues_perm)

/-- The mended pieces of a root element. -/
theorem mended (h : Rooted declared form list rest) :
    ∃ more, mendedAll (tag form "html".toList list :: rest) =
        tag .opening "html".toList (list.map (·.mended)) :: more ∧
      Rooted declared .opening (list.map (·.mended)) more := by
  have hnotVoid : form ≠ .void := by
    rintro rfl
    have hvoid := (h.valid _ List.mem_cons_self).2.2
    revert hvoid
    decide
  have hfirst : ∃ more, mendedAll (tag form "html".toList list :: rest) =
      tag .opening "html".toList (list.map (·.mended)) :: more := by
    cases form with
    | void => exact absurd rfl hnotVoid
    | _ => exact ⟨_, rfl⟩
  obtain ⟨more, hmore⟩ := hfirst
  refine ⟨more, hmore, ?_, ?_, ?_⟩
  · exact hmore ▸ valid_mendedAll h.valid
  · exact hmore ▸ h.nested.mendedAll
  · rw [← h.namespaceValue, List.find?_map, Option.map_map]
    rfl

/-- The missing declarations are added. -/
theorem applies_declarationFixes (h : Rooted declared form list rest)
    (prolog doctype : Bool) :
    Applies (declarationFixes prolog doctype declared)
      (document prolog doctype (tag form "html".toList list :: rest))
      (document true true (tag form "html".toList
        (if declared then list else writtenNamespace :: list) :: rest)) := by
  have hroot : Rooted true form (if declared then list else writtenNamespace :: list) rest := by
    cases declared with
    | true => exact h
    | false => exact h.withNamespace
  have hnamespace : Applies
      (if declared then [] else [⟨.ensureNamespace, "missing_namespace", none, none⟩])
      (document prolog doctype (tag form "html".toList list :: rest))
      (document prolog doctype (tag form "html".toList
        (if declared then list else writtenNamespace :: list) :: rest)) := by
    refine .unless ?_ ?_
    · rintro rfl
      exact h.applyNamespace_document prolog doctype
    · rintro rfl
      rfl
  have hdoctype : Applies
      (if doctype then [] else [⟨.ensureDoctype, "missing_doctype", none, none⟩])
      (document prolog doctype (tag form "html".toList
        (if declared then list else writtenNamespace :: list) :: rest))
      (document prolog true (tag form "html".toList
        (if declared then list else writtenNamespace :: list) :: rest)) := by
    refine .unless ?_ ?_
    · rintro rfl
      exact hroot.applyDoctype_document prolog
    · rintro rfl
      rfl
  have hprolog : Applies
      (if prolog then [] else [⟨.ensureProlog, "missing_xml_declaration", none, none⟩])
      (document prolog true (tag form "html".toList
        (if declared then list else writtenNamespace :: list) :: rest))
      (document true true (tag form "html".toList
        (if declared then list else writtenNamespace :: list) :: rest)) := by
    refine .unless ?_ ?_
    · rintro rfl
      exact hroot.applyProlog_document true
    · rintro rfl
      rfl
  exact (hnamespace.append hdoctype).append hprolog

/-- A document without defects has no issues. -/
theorem analyze_eq_nil (h : Rooted true form list rest)
    (hdefects : defectsAll (tag form "html".toList list :: rest) = 0) :
    analyze (document true true (tag form "html".toList list :: rest)) = [] := by
  have hsites : sitesAll (headerLines true true) (tag form "html".toList list :: rest) = [] := by
    rw [← List.length_eq_zero_iff, length_sitesAll, hdefects]
  have hissues : (scan (document true true
      (tag form "html".toList list :: rest))).foundIssues.Perm
        (declarationIssuesOf true true true ++ (sitesAll (headerLines true true)
          (tag form "html".toList list :: rest)).map (Site.issue true)) := h.foundIssues_perm
  rw [hsites] at hissues
  exact analyze_eq_nil_iff.mpr hissues.eq_nil

/-- A document of pieces is repaired in one pass, if anything is to be done. -/
theorem repair_document (h : Rooted declared form list rest) {options : RepairOptions}
    (hpolicy : ∀ code ∈ IssueKind.allCodes, options.policy.permits code = true)
    (prolog doctype : Bool) :
    ∃ more applied, mendedAll (tag form "html".toList list :: rest) =
        tag .opening "html".toList (list.map (·.mended)) :: more ∧
      applied.length = defectsAll (tag form "html".toList list :: rest) +
        [prolog, doctype, declared].count false ∧
      repair options (document prolog doctype (tag form "html".toList list :: rest)) =
        ⟨document true true (tag .opening "html".toList
          (if declared then list.map (·.mended)
            else writtenNamespace :: list.map (·.mended)) :: more), applied.length, [], applied,
          if applied = [] then 0 else 1⟩ := by
  obtain ⟨more, hmore, hmended⟩ := h.mended
  have hsites := applies_sitesAll h.valid (headerLines prolog doctype) []
  rw [List.append_nil, List.append_nil, hmore] at hsites
  have happlies := hsites.append (hmended.applies_declarationFixes prolog doctype)
  have hdefects : defectsAll (tag .opening "html".toList (list.map (·.mended)) :: more) = 0 :=
    hmore ▸ defectsAll_mendedAll _
  have hclean : analyze (document true true (tag .opening "html".toList
      (if declared then list.map (·.mended)
        else writtenNamespace :: list.map (·.mended)) :: more)) = [] := by
    cases declared with
    | true => exact hmended.analyze_eq_nil hdefects
    | false => exact hmended.withNamespace.analyze_eq_nil hdefects
  have hdone : (ofIssues options.policy (analyze (document true true (tag .opening "html".toList
      (if declared then list.map (·.mended)
        else writtenNamespace :: list.map (·.mended)) :: more)))).isEmpty = true := by
    rw [hclean]
    simp [ofIssues, isEmpty]
  have hrepair := repair_of_applies (h.fixes_ofIssues_document hpolicy) happlies hdone
  have hcount : (declarationFixes prolog doctype declared).length =
      [prolog, doctype, declared].count false := by
    cases prolog <;> cases doctype <;> cases declared <;> rfl
  refine ⟨more, (fixesOf prolog doctype declared (sitesAll (headerLines prolog doctype)
    (tag form "html".toList list :: rest))).map PlannedFix.applied, hmore, ?_, ?_⟩
  · rw [List.length_map, fixesOf, List.length_append, List.length_map, List.length_reverse,
      length_sitesAll, hcount]
  · rw [hrepair, hclean]
    simp only [List.map_eq_nil_iff, List.length_map]

end Rooted

/-- The namespace that written attributes declare is that of the attributes they stand for. -/
theorem namespaceValue_of_map_eq {declared : Bool} {attributes : List Attribute}
    {list : List WrittenAttribute} (hattributes : ∀ a ∈ attributes, a.name ≠ "xmlns".toList)
    (hlist : list.map (·.toAttribute) =
      if declared then .namespaceDeclaration :: attributes else attributes) :
    (list.find? (·.name == "xmlns".toList)).map (·.value) =
      if declared then some xhtmlNamespace else none := by
  have hmap : (list.find? (·.name == "xmlns".toList)).map (·.value) =
      ((list.map (·.toAttribute)).find? (·.name == "xmlns".toList)).map (·.value) := by
    rw [List.find?_map, Option.map_map]
    rfl
  rw [hmap, hlist]
  cases declared with
  | true => rfl
  | false =>
      have hnone : attributes.find? (·.name == "xmlns".toList) = none := by
        rw [List.find?_eq_none]
        intro a ha
        rw [beq_iff_eq]
        exact hattributes a ha
      rw [if_neg Bool.false_ne_true, hnone]
      rfl

/-- Prints of a root element differ in the namespace declaration only. -/
theorem Nodes.exists_print_root (attributes : List Attribute) (children : Nodes) :
    ∃ tail, ∀ declared, (root declared attributes children).print =
      '<' :: "html".toList ++ printAttributes
        (if declared then .namespaceDeclaration :: attributes else attributes) ++ tail := by
  have hvoid : ¬ isVoid "html".toList = true := by
    decide
  refine ⟨'>' :: (children.print ++ '<' :: '/' :: ("html".toList ++ ['>'])), ?_⟩
  intro declared
  rw [root, print, if_neg hvoid, print, List.append_nil]
  simp only [List.cons_append, List.append_assoc]

section Marred

variable {prolog doctype declared : Bool} {attributes : List Attribute} {children : Nodes}
  {written : Text} {n : Nat}

/-- A marred root element falls into pieces that begin with its tag. -/
theorem Marred.exists_rooted
    (hattributes : ∀ a ∈ attributes, a.WellFormed ∧ a.name ≠ "xmlns".toList)
    (hchildren : children.WellFormed)
    (h : Marred (Nodes.root declared attributes children) written n) :
    ∃ form list rest, Rooted declared form list rest ∧
      list.map (·.toAttribute) =
        (if declared then .namespaceDeclaration :: attributes else attributes) ∧
      Represents (tag form "html".toList list :: rest)
        (Nodes.root declared attributes children).print written n := by
  have hwell : ∀ a ∈ (if declared then .namespaceDeclaration :: attributes else attributes),
      a.WellFormed := by
    have hall : ∀ a ∈ attributes, a.WellFormed := fun a ha => (hattributes a ha).1
    cases declared with
    | true => exact List.forall_mem_cons.mpr ⟨writtenNamespace_valid.wellFormed, hall⟩
    | false => exact hall
  have hname : IsElementName "html".toList := by
    decide
  have hvoid : isVoid "html".toList = false := by
    decide
  obtain ⟨form, list, rest, hlist, hpieces⟩ :=
    h.exists_represents_element hvoid ⟨hname, hwell, hchildren, trivial⟩
  have hvalue := namespaceValue_of_map_eq (fun a ha => (hattributes a ha).2) hlist
  exact ⟨form, list, rest, ⟨hpieces.valid, hpieces.nested, hvalue⟩, hlist, hpieces⟩

/-- The clean print in pieces, given a print in pieces with the namespace or without it. -/
theorem Nodes.print_root_eq {list : List WrittenAttribute} {more : List Piece}
    (hlist : list.map (·.toAttribute) =
      if declared then .namespaceDeclaration :: attributes else attributes)
    (hprint : (root declared attributes children).print =
      writtenAll (tag .opening "html".toList (list.map (·.mended)) :: more)) :
    (root true attributes children).print =
      writtenAll (tag .opening "html".toList (if declared then list.map (·.mended)
        else writtenNamespace :: list.map (·.mended)) :: more) := by
  obtain ⟨tail, htail⟩ := exists_print_root attributes children
  have hmended : body (list.map (·.mended)) = printAttributes
      (if declared then .namespaceDeclaration :: attributes else attributes) := by
    rw [body_mended, hlist]
  have hwritten : ∀ list, writtenAll (tag .opening "html".toList list :: more) =
      '<' :: "html".toList ++ body list ++ '>' :: writtenAll more := by
    intro list
    rw [writtenAll_cons, Piece.written]
    simp only [List.cons_append, List.append_assoc, List.nil_append]
  have hrest : tail = '>' :: writtenAll more := by
    rw [htail, hwritten, hmended] at hprint
    exact List.append_cancel_left hprint
  have hdeclared : body (if declared then list.map (·.mended)
      else writtenNamespace :: list.map (·.mended)) =
        printAttributes (.namespaceDeclaration :: attributes) := by
    cases declared with
    | true => exact hmended
    | false => exact congrArg (writtenNamespace.written ++ ·) hmended
  rw [htail, hwritten, hdeclared, hrest, if_pos rfl]

/-- A clean print has no issues. -/
theorem analyze_print (hattributes : ∀ a ∈ attributes, a.WellFormed ∧ a.name ≠ "xmlns".toList)
    (hchildren : children.WellFormed) :
    analyze (headerLines true true ++ (Nodes.root true attributes children).print) = [] := by
  obtain ⟨form, list, rest, hrooted, _, hpieces⟩ :=
    (marred_print (Nodes.root true attributes children)).exists_rooted hattributes hchildren
  rw [hpieces.written_eq]
  exact hrooted.analyze_eq_nil hpieces.defects_eq.symm

/-- Whatever set of defects a document is printed with, repairing it gives the clean print back,
without issues and in one pass. Every defect and every declaration that is missing takes one fix,
and a document without defects takes none. -/
theorem repair_marred {options : RepairOptions}
    (hpolicy : ∀ code ∈ IssueKind.allCodes, options.policy.permits code = true)
    (hattributes : ∀ a ∈ attributes, a.WellFormed ∧ a.name ≠ "xmlns".toList)
    (hchildren : children.WellFormed)
    (h : Marred (Nodes.root declared attributes children) written n) :
    ∃ applied : List AppliedFix,
      applied.length = n + [prolog, doctype, declared].count false ∧
      repair options (headerLines prolog doctype ++ written) =
        ⟨headerLines true true ++ (Nodes.root true attributes children).print, applied.length, [],
          applied, if applied = [] then 0 else 1⟩ := by
  obtain ⟨form, list, rest, hrooted, hlist, hpieces⟩ := h.exists_rooted hattributes hchildren
  obtain ⟨more, applied, hmore, hlength, hrepair⟩ :=
    hrooted.repair_document hpolicy prolog doctype
  have hprint := hpieces.meant_eq
  rw [hmore] at hprint
  refine ⟨applied, ?_, ?_⟩
  · rw [hpieces.defects_eq, hlength]
  · rw [Nodes.print_root_eq hlist hprint, hpieces.written_eq]
    exact hrepair

/-- A paragraph, a line break and a text with two references. -/
def sampleNodes : Nodes :=
  .element "p".toList [⟨"class".toList, "x".toList⟩] .none
    (.element "br".toList [] .none (.text "A&amp; B&lt; C".toList .none))

/-- The sample comes back from a print without quotes, closing tag, escape, semicolon and
declarations. -/
theorem repair_marred_sampleNodes :
    ∃ applied : List AppliedFix, applied.length = 7 ∧
      repair {} "<html lang=\"en\"><p class=x/><br/>A& B&lt C</html>".toList =
        ⟨headerLines true true ++ ("<html xmlns=\"http://www.w3.org/1999/xhtml\" lang=\"en\">" ++
          "<p class=\"x\"></p><br/>A&amp; B&lt; C</html>").toList, applied.length, [], applied,
          if applied = [] then 0 else 1⟩ := by
  have hreads : (Attribute.mk "class".toList "x".toList).ReadsUnquoted := by
    decide
  have hlt : IsEntityName "lt".toList := by
    decide
  have hchildren : sampleNodes.WellFormed := by
    decide
  have hattributes : ∀ a ∈ [Attribute.mk "lang".toList "en".toList],
      a.WellFormed ∧ a.name ≠ "xmlns".toList := by
    decide
  have htext : MarredText "A&amp; B&lt; C".toList
      ('A' :: '&' :: ' ' :: 'B' :: '&' :: ("lt".toList ++ ' ' :: ['C'])) 2 := by
    have hsplit : "A&amp; B&lt; C".toList =
        'A' :: ("&amp; ".toList ++ 'B' :: '&' :: ("lt".toList ++ ';' :: ' ' :: ['C'])) := by
      decide
    rw [hsplit]
    exact .same 'A' (.ampersand (.same 'B' (.unterminated hlt (.same 'C' .nil))))
  have hmarred : Marred (Nodes.root false [⟨"lang".toList, "en".toList⟩] sampleNodes)
      "<html lang=\"en\"><p class=x/><br/>A& B&lt C</html>".toList 4 := by
    have hbreak := Marred.void (by decide : isVoid "br".toList = true) .nil .none
      (.text htext .none)
    have hparagraph := Marred.collapsed (by decide : isContainer "p".toList = true)
      (.unquoted hreads .nil) (rfl : Nodes.none.print = []) hbreak
    have hroot : Marred (Nodes.root false [⟨"lang".toList, "en".toList⟩] sampleNodes) _ _ :=
      .element (by decide) (.quoted _ .nil) hparagraph .none
    convert hroot using 1
    decide
  obtain ⟨applied, hlength, hrepair⟩ := @repair_marred false false false
    [⟨"lang".toList, "en".toList⟩] sampleNodes _ 4 {} (fun _ _ => rfl) hattributes hchildren hmarred
  have hclean : (Nodes.root true [⟨"lang".toList, "en".toList⟩] sampleNodes).print =
      ("<html xmlns=\"http://www.w3.org/1999/xhtml\" lang=\"en\">" ++
        "<p class=\"x\"></p><br/>A&amp; B&lt; C</html>").toList := by
    decide
  rw [hclean] at hrepair
  exact ⟨applied, hlength, hrepair⟩

end Marred

end MarkupRepair
