import MarkupRepair.Proofs.Issue.Order
import MarkupRepair.Proofs.Markup.Shape

/-!
# Contents of comments and CDATA sections do not influence the analysis

Tags, references and the document type of a scan come from the masked text and from the line index,
and both are known from the shape of the text. Only the XML declaration is read from the text
itself, and only one kind of issue depends on it.
-/

namespace MarkupRepair

/-- All issues but that of the XML declaration depend on the tags, the references and the document
type only. -/
theorem Scan.filter_issues_eq {s s' : Scan} (htags : s.tags = s'.tags)
    (hentities : s.entities = s'.entities) (hdoctype : s.doctype = s'.doctype) :
    s.issues.filter (·.code != "missing_xml_declaration") =
      s'.issues.filter (·.code != "missing_xml_declaration") := by
  have hissue : ∀ kind position, s.issue kind position = s'.issue kind position := by
    intro kind position
    rw [issue, issue, hdoctype]
  have hplaced : s.placedIssues = s'.placedIssues := by
    simp only [placedIssues, balanceIssues, attributeIssues, entityIssues, htags, hentities, hissue]
  have hroot : s.rootHasNamespace = s'.rootHasNamespace := by
    rw [rootHasNamespace, rootHasNamespace, root?, root?, htags]
  have hconforms : s.doctypeConforms = s'.doctypeConforms := by
    rw [doctypeConforms, doctypeConforms, hdoctype]
  have hprolog : ∀ s : Scan, (if s.prologConforms then []
      else [s.issue (.missingXmlDeclaration (s.prolog.map (·.text))) none]).filter
        (·.code != "missing_xml_declaration") = [] := by
    intro s
    split
    · rfl
    · simp [issue, classify, Issue.code, IssueKind.code]
  rw [issues_eq, issues_eq, hplaced, List.filter_append, List.filter_append]
  simp only [declarationIssues, List.filter_append, hprolog]
  simp only [hconforms, hroot, hdoctype, hissue]

/-- Two texts that differ only in what their comments and CDATA sections hold, not in the size and
in the lines of any of these, have the same tags with their attributes, the same references and the
same document type, and the same issues except that of the XML declaration. The kinds of the
sections and their closers make no difference either. -/
theorem analyze_eq_of_shape_eq (t t' : Text) (h : t.shape = t'.shape) :
    (scan t).tags = (scan t').tags ∧ (scan t).entities = (scan t').entities ∧
      (scan t).doctype = (scan t').doctype ∧
      (analyze t).filter (·.code != "missing_xml_declaration") =
        (analyze t').filter (·.code != "missing_xml_declaration") := by
  have hmask := mask_eq_of_shape_eq h
  have hindex : LineIndex.ofText t = LineIndex.ofText t' := by
    rw [← LineIndex.ofText_mask t, hmask, LineIndex.ofText_mask t']
  have htags : (scan t).tags = (scan t').tags := by
    simp only [scan, hmask, hindex]
  have hentities : (scan t).entities = (scan t').entities := by
    simp only [scan, hmask, hindex]
  have hdoctype : (scan t).doctype = (scan t').doctype := by
    simp only [scan, hmask]
  exact ⟨htags, hentities, hdoctype, Scan.filter_issues_eq htags hentities hdoctype⟩

/-- Markup, quotes and partial closers in a comment and in a CDATA section that goes to the end. -/
theorem analyze_eq_of_shape_eq_markup :
    let t : Text := "<p a=b><!-- é & \n -->&x<![CDATA[<q>&]]".toList
    let t' : Text := "<p a=b><!--<i '\"-\n!-->&x<![CDATA['\"--><".toList
    t.shape = t'.shape ∧ (scan t).tags = (scan t').tags ∧ (scan t).entities = (scan t').entities ∧
      (scan t).doctype = (scan t').doctype ∧
      (analyze t).filter (·.code != "missing_xml_declaration") =
        (analyze t').filter (·.code != "missing_xml_declaration") := by
  intro t t'
  have h : t.shape = t'.shape := by
    decide +kernel
  exact ⟨h, analyze_eq_of_shape_eq t t' h⟩

end MarkupRepair
