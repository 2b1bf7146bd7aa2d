import MarkupRepair.Text.Basic

/-!
# Issues

A structural defect of a document: its kind with what the kind carries, a message, a place,
a severity, and whether a mechanical repair exists.
-/

namespace MarkupRepair

/-- How bad a defect is. -/
inductive Severity where
  /-- The document is usable but not of the expected shape. -/
  | warning
  /-- The document breaks a rule of conformance. -/
  | error
  /-- The structure of the document cannot be trusted. -/
  | fatal
  deriving DecidableEq, Repr

namespace Severity

/-- The severity in reports. -/
def name : Severity → String
  | .warning => "warning"
  | .error => "error"
  | .fatal => "fatal"

/-- The severity with a given name. -/
def ofName? : String → Option Severity
  | "warning" => some .warning
  | "error" => some .error
  | "fatal" => some .fatal
  | _ => none

theorem ofName?_name (s : Severity) : ofName? s.name = some s := by cases s <;> rfl

/-- Errors and fatal issues both count as errors. -/
def isError (s : Severity) : Bool := s != .warning

end Severity

/-- Why a tag is reported as unclosed. -/
inductive UnclosedCause where
  /-- A closing tag of an outer element came while this element was open. -/
  | interrupted (closedBy : Text)
  /-- A closing tag came that no open element matches. -/
  | unexpectedClose
  /-- The element was open when the document ended. -/
  | endOfDocument
  deriving DecidableEq, Repr

/-- The kinds of defects. -/
inductive IssueKind where
  /-- No conforming XML declaration; `found` is the one that does not conform. -/
  | missingXmlDeclaration (found : Option Text)
  /-- No canonical document type; `found` is the one that stands there. -/
  | missingDoctype (found : Option Text)
  /-- The root element does not declare the XHTML namespace. -/
  | missingNamespace
  /-- A tag without its counterpart. -/
  | unclosedTag (tag : Text) (cause : UnclosedCause)
  /-- An attribute value without quotes. -/
  | unquotedAttribute (name value : Text)
  /-- An attribute value whose extent is unclear. -/
  | malformedAttribute (name value : Text)
  /-- A lone ampersand or a reference without its semicolon. -/
  | invalidEntity (entity : Text)
  /-- An attribute value behind a run of double quotes. -/
  | corruptedQuotes (name : Text) (quotes : Nat)
  /-- A container element in self-closing form. -/
  | selfClosedContainer (tag : Text)
  deriving DecidableEq, Repr

namespace IssueKind

/-- The code of a kind, used in reports and in policies. -/
def code : IssueKind → String
  | .missingXmlDeclaration _ => "missing_xml_declaration"
  | .missingDoctype _ => "missing_doctype"
  | .missingNamespace => "missing_namespace"
  | .unclosedTag _ _ => "unclosed_tag"
  | .unquotedAttribute _ _ => "unquoted_attribute"
  | .malformedAttribute _ _ => "malformed_attribute"
  | .invalidEntity _ => "invalid_entity"
  | .corruptedQuotes _ _ => "corrupted_quotes"
  | .selfClosedContainer _ => "self_closed_container"

/-- All codes in report order. -/
def allCodes : List String :=
  ["missing_xml_declaration", "missing_doctype", "missing_namespace", "unclosed_tag",
    "unquoted_attribute", "malformed_attribute", "invalid_entity", "corrupted_quotes",
    "self_closed_container"]

theorem code_mem_allCodes (k : IssueKind) : k.code ∈ allCodes := by
  cases k <;> simp [code, allCodes]

/-- Whether a kind concerns the whole document rather than a place in it. -/
def isDocumentLevel : IssueKind → Bool
  | .missingXmlDeclaration _ | .missingDoctype _ | .missingNamespace => true
  | _ => false

end IssueKind

/-- A defect found in a document. -/
structure Issue where
  /-- What is wrong. -/
  kind : IssueKind
  /-- The defect in words. -/
  message : String
  /-- Line, from one. -/
  line : Option Nat
  /-- Byte column in the line, from one. -/
  column : Option Nat
  /-- How bad it is. -/
  severity : Severity
  /-- Whether a mechanical repair exists. -/
  fixable : Bool
  deriving DecidableEq, Repr

namespace Issue

/-- The code of the issue's kind. -/
def code (i : Issue) : String := i.kind.code

/-- Whether the issue is fatal. -/
def isFatal (i : Issue) : Bool := i.severity == .fatal

/-- Line and column for ordering, zero where absent. -/
def scanKey (i : Issue) : Nat × Nat := (i.line.getD 0, i.column.getD 0)

/-- Whether the issue comes before another, or at the same place. -/
def atOrBefore (i j : Issue) : Bool :=
  i.scanKey.1 < j.scanKey.1 || (i.scanKey.1 == j.scanKey.1 && i.scanKey.2 ≤ j.scanKey.2)

/-- The issue in one line. -/
def display (i : Issue) : String :=
  let place := match i.line with
    | some line => s!" (line {line})"
    | none => ""
  s!"[{i.severity.name}] {i.code}{place}: {i.message}"

end Issue

end MarkupRepair
