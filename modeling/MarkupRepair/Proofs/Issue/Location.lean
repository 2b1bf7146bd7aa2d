import MarkupRepair.Proofs.Issue.Order
import MarkupRepair.Proofs.Issue.Places
import MarkupRepair.Proofs.Markup.Outside

/-!
# Issues point at what they name

Every issue with a place comes from one token of the scan and has its position: a fault of the tag
balance from a tag, the others from an attribute or from a reference. The line index leads from the
position to the place where the text goes on with the token as it is written.
-/

namespace MarkupRepair

/-- Whether a text is what an issue of a kind names at its place: the beginning of a tag up to the
case of its letters, the name of an attribute or a reference. -/
def IssueKind.Names (w : Text) : IssueKind → Prop
  | .unclosedTag tag .unexpectedClose => Text.toLowerAscii w = '<' :: '/' :: tag
  | .unclosedTag tag _ | .selfClosedContainer tag => Text.toLowerAscii w = '<' :: tag
  | .unquotedAttribute name _ | .malformedAttribute name _ | .corruptedQuotes name _ => w = name
  | .invalidEntity entity => w = entity
  | _ => False

variable {t w : Text} {i : Issue}

/-- A fault of a tag names the beginning of the tag. -/
theorem Balance.Blames.names {tag : TagToken} {fault : BalanceFault} (h : Blames tag fault)
    (hw : Text.toLowerAscii w = tag.opener) : fault.kind.Names w := by
  cases h with
  | closing hkind =>
      rw [TagToken.opener, if_pos hkind] at hw
      exact hw
  | opening hkind cause hcause =>
      rw [TagToken.opener, if_neg (by simp [hkind])] at hw
      cases cause with
      | unexpectedClose => exact absurd rfl hcause
      | _ => exact hw
  | container hkind =>
      rw [TagToken.opener, if_neg (by simp [hkind])] at hw
      exact hw

/-- A fault of an attribute names the attribute. -/
theorem AttributeToken.names_of_fault? {a : AttributeToken} {kind : IssueKind}
    (h : a.fault? = some kind) : kind.Names a.name := by
  rcases a.kind_of_fault? h with ⟨quotes, rfl⟩ | rfl | rfl <;> rfl

/-- Only kinds that do not concern the whole document name something. -/
theorem IssueKind.Names.isDocumentLevel {kind : IssueKind} (h : kind.Names w) :
    kind.isDocumentLevel = false := by
  cases kind with
  | missingXmlDeclaration | missingDoctype | missingNamespace => cases h
  | _ => rfl

/-- An issue of a kind has the position that it was found at, if it names something. -/
theorem Scan.line_issue {kind : IssueKind} (s : Scan) (p : Position) (h : kind.Names w) :
    (s.issue kind (some p)).line = some p.line ∧
      (s.issue kind (some p)).column = some p.column := by
  simp [issue, classify, h.isDocumentLevel]

/-- An issue with a place has the position of a token that stands outside of sections, and names
what stands there. -/
theorem exists_names_of_mem_placedIssues (h : i ∈ (scan t).placedIssues) :
    ∃ kind offset w, i = (scan t).issue kind (some ((LineIndex.ofText t).position offset)) ∧
      kind.Names w ∧ StandsOutside t w offset := by
  rw [Scan.placedIssues, List.mem_append, List.mem_append] at h
  rcases h with (h | h) | h
  · obtain ⟨fault, hfault, rfl⟩ := List.mem_map.mp h
    obtain ⟨tag, htag, hblames⟩ := Balance.exists_blames_of_mem_faults hfault
    obtain ⟨offset, w, hposition, hw, hstands⟩ := exists_standsOutside_of_mem_tags htag
    have hplace : fault.position = tag.position := by
      cases hblames <;> rfl
    exact ⟨_, offset, w, by rw [hplace, hposition], hblames.names hw, hstands⟩
  · obtain ⟨a, ha, hissue⟩ := List.mem_filterMap.mp h
    obtain ⟨tag, htag, ha⟩ := List.mem_flatMap.mp ha
    obtain ⟨kind, hkind, rfl⟩ := Option.map_eq_some_iff.mp hissue
    obtain ⟨offset, hposition, hstands⟩ := exists_standsOutside_of_mem_attributes htag ha
    exact ⟨_, offset, _, by rw [hposition], AttributeToken.names_of_fault? hkind, hstands⟩
  · obtain ⟨e, he, rfl⟩ := List.mem_map.mp h
    obtain ⟨offset, hposition, hstands⟩ :=
      exists_standsOutside_of_mem_entities (List.mem_filter.mp he).1
    exact ⟨.invalidEntity e.text, offset, e.text, by rw [hposition], rfl, hstands⟩

/-- The issues of a document begin with those of the document as a whole: at most one of each kind,
in the order of declaration, document type and namespace, without a place. The others are sorted by
line and column, and for each of them the line index leads from its line and column to an offset
outside of comments and CDATA sections where the text goes on with what the issue names. -/
theorem analyze_eq_declared_append_placed (t : Text) : ∃ declared placed,
    analyze t = declared ++ placed ∧
      (declared.map (·.code)).Sublist declarationCodes ∧
      (∀ i ∈ declared, i.line = none ∧ i.column = none) ∧
      placed.Pairwise (fun i j => toLex i.scanKey ≤ toLex j.scanKey) ∧
      ∀ i ∈ placed, ∃ p offset w, i.line = some p.line ∧ i.column = some p.column ∧
        (LineIndex.ofText t).offset? p = some offset ∧ i.kind.Names w ∧
        StandsOutside t w offset := by
  refine ⟨_, _, (scan t).issues_eq, (scan t).sublist_map_code_declarationIssues,
    fun i => Scan.line_eq_none_of_mem_declarationIssues, (scan t).pairwise_placedIssues,
    fun i hi => ?_⟩
  obtain ⟨kind, offset, w, rfl, hnames, hstands⟩ :=
    exists_names_of_mem_placedIssues (List.mem_mergeSort.mp hi)
  obtain ⟨hline, hcolumn⟩ := (scan t).line_issue ((LineIndex.ofText t).position offset) hnames
  exact ⟨_, offset, w, hline, hcolumn, hstands.offset?_position, hnames, hstands⟩

end MarkupRepair
