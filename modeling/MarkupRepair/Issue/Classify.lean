import MarkupRepair.Issue.Basic

/-!
# Classifying defects

Severity, fixability and wording of every kind of defect, and the two tallies over issues: by
fixability and by severity.
-/

namespace MarkupRepair

namespace IssueKind

/-- The severity of a kind. A missing XML declaration is only a warning in a document that has
a document type. -/
def severity (hasDoctype : Bool) : IssueKind → Severity
  | .missingXmlDeclaration _ => if hasDoctype then .warning else .error
  | .missingDoctype _ => .error
  | .missingNamespace => .error
  | .unclosedTag _ _ => .fatal
  | .unquotedAttribute _ _ => .error
  | .malformedAttribute _ _ => .fatal
  | .invalidEntity _ => .fatal
  | .corruptedQuotes _ _ => .fatal
  | .selfClosedContainer _ => .warning

/-- Whether a mechanical repair exists. An interrupted element and a stray closing tag have no
safe place for the tag that is missing. -/
def fixable : IssueKind → Bool
  | .unclosedTag _ cause => cause == .endOfDocument
  | _ => true

/-- The defect in words. -/
def describe : IssueKind → String
  | .missingXmlDeclaration none => "Missing XML declaration"
  | .missingXmlDeclaration (some h) => "Malformed XML declaration: " ++ String.ofList h
  | .missingDoctype none => "Missing DOCTYPE declaration"
  | .missingDoctype (some h) => "Malformed DOCTYPE declaration: " ++ String.ofList h
  | .missingNamespace => "Missing XHTML namespace"
  | .unclosedTag tag (.interrupted closedBy) =>
      s!"Unclosed tag: <{String.ofList tag}> (interrupted by </{String.ofList closedBy}>)"
  | .unclosedTag tag .unexpectedClose => s!"Unexpected closing tag: </{String.ofList tag}>"
  | .unclosedTag tag .endOfDocument => s!"Unclosed tag: <{String.ofList tag}>"
  | .unquotedAttribute name value =>
      s!"Unquoted attribute: {String.ofList name}={String.ofList value}"
  | .malformedAttribute name [] =>
      s!"Malformed attribute: {String.ofList name} has no value"
  | .malformedAttribute name value =>
      s!"Malformed attribute: {String.ofList name}={String.ofList value}"
  | .invalidEntity ['&'] => "Unescaped ampersand"
  | .invalidEntity entity => "Invalid entity reference: " ++ String.ofList entity
  | .corruptedQuotes name quotes =>
      s!"Corrupted quotes in attribute {String.ofList name} ({quotes} consecutive quotes)"
  | .selfClosedContainer tag =>
      s!"Self-closing <{String.ofList tag}/> is not valid for a container element"

end IssueKind

/-- The issue of a kind at a place. Kinds that concern the whole document carry no place. -/
def classify (hasDoctype : Bool) (kind : IssueKind) (position : Option Position) : Issue :=
  let position := if kind.isDocumentLevel then none else position
  { kind
    message := kind.describe
    line := position.map (·.line)
    column := position.map (·.column)
    severity := kind.severity hasDoctype
    fixable := kind.fixable }

/-- The issues with and without a mechanical repair, in order. -/
def partitionFixable (issues : List Issue) : List Issue × List Issue :=
  issues.partition (·.fixable)

/-- How many issues there are of each severity. -/
structure SeverityCounts where
  /-- Number of warnings. -/
  warnings : Nat
  /-- Number of errors. -/
  errors : Nat
  /-- Number of fatal issues. -/
  fatals : Nat
  deriving DecidableEq, Repr

/-- The counts of a list of issues. -/
def SeverityCounts.of (issues : List Issue) : SeverityCounts :=
  ⟨issues.countP (·.severity == .warning), issues.countP (·.severity == .error),
    issues.countP (·.severity == .fatal)⟩

end MarkupRepair
