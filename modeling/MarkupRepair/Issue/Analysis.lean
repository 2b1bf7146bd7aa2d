import MarkupRepair.Issue.Balance
import MarkupRepair.Issue.Classify

/-!
# Analysing a document

Declarations, tag balance, attributes and entity references are checked on one scan, each by
itself. The issues are listed with those of the whole document first and then by place, top
to bottom and left to right.
-/

namespace MarkupRepair

namespace Scan

/-- The classified issue of a kind in a scanned document. -/
def issue (s : Scan) (kind : IssueKind) (position : Option Position) : Issue :=
  classify s.doctype.isSome kind position

/-- The issues of the declarations and of the root element. -/
def declarationIssues (s : Scan) : List Issue :=
  (if s.prologConforms then []
    else [s.issue (.missingXmlDeclaration (s.prolog.map (·.text))) none]) ++
  (if s.doctypeConforms then []
    else [s.issue (.missingDoctype (s.doctype.map (·.text))) none]) ++
  (if s.rootHasNamespace then [] else [s.issue .missingNamespace none])

/-- The issues of the tag balance. -/
def balanceIssues (s : Scan) : List Issue :=
  (Balance.faults s.tags).map fun fault => s.issue fault.kind (some fault.position)

end Scan

/-- Whether an unquoted value is empty or holds a character that leaves its end in doubt. -/
def isAmbiguousUnquoted (raw : Text) : Bool :=
  raw.isEmpty ||
    raw.any fun c => c == '=' || c == '<' || c == '`' || c == '"' || c == '\''

/-- What is wrong with an attribute, if anything. -/
def AttributeToken.fault? (a : AttributeToken) : Option IssueKind :=
  match a.quoting with
  | .double | .single => none
  | .corrupted quotes => some (.corruptedQuotes a.name quotes)
  | .unterminated => some (.malformedAttribute a.name a.raw)
  | .unquoted =>
      some (if isAmbiguousUnquoted a.raw then .malformedAttribute a.name a.raw
        else .unquotedAttribute a.name a.raw)

namespace Scan

/-- The issues of the attributes. -/
def attributeIssues (s : Scan) : List Issue :=
  (s.tags.flatMap (·.attributes)).filterMap fun a =>
    (a.fault?).map fun kind => s.issue kind (some a.position)

/-- The issues of the entity references. -/
def entityIssues (s : Scan) : List Issue :=
  (s.entities.filter fun e => !e.terminated).map fun e =>
    s.issue (.invalidEntity e.text) (some e.position)

/-- All issues in scan order. The sort is stable, so issues at one place keep the order of
the checks. -/
def issues (s : Scan) : List Issue :=
  (s.declarationIssues ++ s.balanceIssues ++ s.attributeIssues ++ s.entityIssues).mergeSort
    Issue.atOrBefore

end Scan

/-- The issues of a document. -/
def analyze (t : Text) : List Issue := (scan t).issues

end MarkupRepair
