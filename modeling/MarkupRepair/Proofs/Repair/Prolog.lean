import MarkupRepair.Proofs.Markup.Prolog
import MarkupRepair.Proofs.Repair.Allotment

/-!
# Ensuring the XML declaration

A missing XML declaration is reported, and put in, exactly when the document does not begin with a
declaration of version 1.0 in one line. What is put in conforms and stands behind the byte order
mark, so it is left alone from then on.
-/

namespace MarkupRepair

/-- Whether a document begins with an XML declaration of version 1.0 that stands in one line. -/
def DeclaresInOneLine (t : Text) : Prop :=
  ∃ d : VersionOneDeclaration, '\n' ∉ d.toText ∧ t.BeginsWith d.toText

/-- The declaration with one blank, double quotes and a given text behind the version. -/
def VersionOneDeclaration.followedBy (more : Text) (plain : ∀ c ∈ more, c ≠ '<' ∧ c ≠ '>') :
    VersionOneDeclaration where
  gap := [' ']
  beforeEquals := []
  afterEquals := []
  opening := '"'
  closing := '"'
  more := more
  gap_ne_nil := List.cons_ne_nil _ _
  blank := by simp [isWhiteSpace]
  quoted := by simp
  plain := plain

/-- The canonical XML declaration in its parts. -/
def VersionOneDeclaration.canonical : VersionOneDeclaration :=
  followedBy " encoding=\"UTF-8\"".toList (by simp)

theorem VersionOneDeclaration.toText_canonical : canonical.toText = canonicalProlog := rfl

namespace Fix

variable {t next : Text}

theorem applyProlog_eq_none_iff : applyProlog t = none ↔ (scan t).prologConforms = true := by
  unfold applyProlog
  dsimp only
  split
  next h => exact iff_of_true rfl h
  next h =>
    refine iff_of_false ?_ h
    split <;> exact nofun

/-- Whether a document is another one with the canonical XML declaration in place of its own, or on
a line of its own behind the byte order mark. -/
inductive PutsProlog (t next : Text) : Prop where
  /-- The declaration is exchanged. -/
  | exchanged (header : Header) (rest : Text) (prolog : (scan t).prolog = some header)
      (before : t = t.mark ++ (header.text ++ rest))
      (after : next = t.mark ++ (canonicalProlog ++ rest))
  /-- The declaration is put in. -/
  | inserted (rest : Text) (prolog : (scan t).prolog = none) (before : t = t.mark ++ rest)
      (after : next = t.mark ++ (canonicalProlog ++ '\n' :: rest))

/-- What ensuring the XML declaration changes. -/
theorem putsProlog_of_applyProlog (h : applyProlog t = some next) : PutsProlog t next := by
  unfold applyProlog at h
  dsimp only at h
  split at h
  next => cases h
  next =>
    split at h
    next header hprolog =>
      obtain ⟨rest, hsite⟩ := exists_prologSite hprolog
      refine .exchanged header rest hprolog hsite.text ?_
      have hsplice := Text.splice_append t.mark header.text rest canonicalProlog
      rw [← hsite.text, ← hsite.span, Option.some.inj h] at hsplice
      rw [hsplice, List.append_assoc]
    next hprolog =>
      obtain ⟨rest, ht, hmark⟩ := t.exists_mark_append
      refine .inserted rest hprolog ht ?_
      have hsplice := Text.splice_insert t.mark rest (canonicalProlog ++ ['\n'])
      rw [← ht, ← hmark, Option.some.inj h] at hsplice
      rw [hsplice]
      simp

/-- The canonical declaration stands behind the mark of the text. -/
theorem PutsProlog.exists_eq (h : PutsProlog t next) :
    ∃ rest, next = t.mark ++ (canonicalProlog ++ rest) := by
  cases h with
  | exchanged _ rest _ _ after => exact ⟨rest, after⟩
  | inserted rest _ _ after => exact ⟨'\n' :: rest, after⟩

/-- The byte order mark stays. -/
theorem PutsProlog.mark_eq (h : PutsProlog t next) : next.mark = t.mark := by
  obtain ⟨rest, rfl⟩ := h.exists_eq
  exact Text.mark_append_of_head? rfl

/-- Afterwards the declaration conforms. -/
theorem PutsProlog.prologConforms (h : PutsProlog t next) : (scan next).prologConforms = true := by
  obtain ⟨rest, hnext⟩ := h.exists_eq
  rw [← h.mark_eq] at hnext
  rw [prologConforms_scan_iff]
  refine ⟨.canonical, by decide, (Text.beginsWith_iff rfl).mpr ⟨rest, ?_⟩⟩
  rwa [VersionOneDeclaration.toText_canonical]

end Fix

/-- A missing XML declaration is reported exactly when none conforms. -/
theorem exists_missingXmlDeclaration_iff {t : Text} :
    (∃ i ∈ analyze t, i.code = "missing_xml_declaration") ↔ (scan t).prologConforms = false := by
  constructor
  · rintro ⟨i, hi, hcode⟩
    have hlevel : ∀ kind : IssueKind, kind.code = "missing_xml_declaration" →
        kind.isDocumentLevel = true := by
      intro kind hkind
      cases kind <;> first | rfl | simp [IssueKind.code] at hkind
    have hmem := (scan t).perm_filter_isDocumentLevel.mem_iff.mp
      (List.mem_filter.mpr ⟨hi, hlevel _ hcode⟩)
    rw [← Bool.not_eq_true]
    intro hconforms
    rw [Scan.declarationIssues, if_pos hconforms, List.nil_append, List.mem_append] at hmem
    rcases hmem with hmem | hmem
    all_goals
      split at hmem
      · cases hmem
      · rw [List.mem_singleton.mp hmem] at hcode
        simp [Issue.code, Scan.issue, classify, IssueKind.code] at hcode
  · intro hconforms
    refine ⟨(scan t).issue (.missingXmlDeclaration ((scan t).prolog.map (·.text))) none,
      mem_analyze_iff.mpr ?_, rfl⟩
    simp [Scan.foundIssues, Scan.declarationIssues, hconforms]

/-- A missing XML declaration is reported exactly when the document does not begin with one of
version 1.0 that stands in one line, and only then is one put in. -/
theorem missingXmlDeclaration_iff_not_declaresInOneLine (t : Text) :
    ((∃ i ∈ analyze t, i.code = "missing_xml_declaration") ↔ ¬ DeclaresInOneLine t) ∧
      (Fix.ensureProlog.apply t = none ↔ DeclaresInOneLine t) := by
  have hdeclares : (scan t).prologConforms = true ↔ DeclaresInOneLine t := prologConforms_scan_iff
  constructor
  · rw [exists_missingXmlDeclaration_iff, ← hdeclares, Bool.not_eq_true]
  · exact Fix.applyProlog_eq_none_iff.trans hdeclares

/-- An XML declaration that goes over two lines. -/
def twoLineDeclaration : VersionOneDeclaration :=
  .followedBy "\n encoding=\"UTF-8\"".toList (by simp)

/-- That declaration is one of version 1.0, and is reported all the same. -/
theorem not_declared_twoLineDeclaration : ¬ ∀ t : Text,
    ((∃ i ∈ analyze t, i.code = "missing_xml_declaration") ↔
        ¬ ∃ d : VersionOneDeclaration, t.BeginsWith d.toText) ∧
      ((∃ d : VersionOneDeclaration, t.BeginsWith d.toText) → Fix.ensureProlog.apply t = none) := by
  intro h
  have hbegins : ∃ d : VersionOneDeclaration,
      Text.BeginsWith (twoLineDeclaration.toText ++ '\n' :: canonicalDoctype) d.toText :=
    ⟨twoLineDeclaration, .inl (List.prefix_append _ _)⟩
  have happly := (h _).2 hbegins
  revert happly
  decide +kernel

end MarkupRepair
