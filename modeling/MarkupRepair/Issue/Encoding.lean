import MarkupRepair.Issue.Basic
import MarkupRepair.Json.Text

/-!
# Issues as JSON

An issue is one flat object: the code of its kind under `type`, what the kind carries, the
message, the place, the severity and whether it can be fixed. Absent parts are not written.
When reading, unknown fields are ignored.
-/

namespace MarkupRepair

namespace Severity

/-- A severity as JSON. -/
def toJson (s : Severity) : Json := .str s.name

/-- The severity that a JSON value names. -/
def ofJson? (value : Json) : Option Severity := (value.caseName?).bind ofName?

@[simp] theorem ofJson?_toJson (s : Severity) : ofJson? s.toJson = some s := by
  cases s <;> rfl

end Severity

namespace UnclosedCause

/-- The fields of a cause. -/
def fields : UnclosedCause → List (String × Json)
  | .interrupted closedBy =>
      [("cause", .str "interrupted"), ("closed_by", .ofText closedBy)]
  | .unexpectedClose => [("cause", .str "unexpected_close")]
  | .endOfDocument => [("cause", .str "end_of_document")]

/-- The cause that an issue's fields give, by its name or by its place among the causes. -/
def ofFields? (fields : List (String × Json)) : Option UnclosedCause := do
  let value ← Json.lookup? "cause" fields
  match ← Json.listedName? ["interrupted", "unexpected_close", "end_of_document"] value with
  | "interrupted" => return .interrupted (← Json.required? Json.text? fields "closed_by")
  | "unexpected_close" => return .unexpectedClose
  | "end_of_document" => return .endOfDocument
  | _ => none

end UnclosedCause

namespace IssueKind

/-- The fields of a kind, its code first. -/
def fields (kind : IssueKind) : List (String × Json) :=
  ("type", .str kind.code) :: match kind with
    | .missingXmlDeclaration found => Json.optionalField "found" .ofText found
    | .missingDoctype found => Json.optionalField "found" .ofText found
    | .missingNamespace => []
    | .unclosedTag tag cause => ("tag", .ofText tag) :: cause.fields
    | .unquotedAttribute name value => [("attribute", .ofText name), ("value", .ofText value)]
    | .malformedAttribute name value => [("attribute", .ofText name), ("value", .ofText value)]
    | .invalidEntity entity => [("entity", .ofText entity)]
    | .corruptedQuotes name quotes => [("attribute", .ofText name), ("quotes", .nat quotes)]
    | .selfClosedContainer tag => [("tag", .ofText tag)]

/-- The kind with a given code and the given fields. -/
def ofFields? (code : String) (fields : List (String × Json)) : Option IssueKind :=
  match code with
  | "missing_xml_declaration" =>
      (Json.optional? Json.text? fields "found").map missingXmlDeclaration
  | "missing_doctype" => (Json.optional? Json.text? fields "found").map missingDoctype
  | "missing_namespace" => some missingNamespace
  | "unclosed_tag" => do
      return unclosedTag (← Json.required? Json.text? fields "tag")
        (← UnclosedCause.ofFields? fields)
  | "unquoted_attribute" => do
      return unquotedAttribute (← Json.required? Json.text? fields "attribute")
        (← Json.required? Json.text? fields "value")
  | "malformed_attribute" => do
      return malformedAttribute (← Json.required? Json.text? fields "attribute")
        (← Json.required? Json.text? fields "value")
  | "invalid_entity" => (Json.required? Json.text? fields "entity").map invalidEntity
  | "corrupted_quotes" => do
      return corruptedQuotes (← Json.required? Json.text? fields "attribute")
        (← Json.required? Json.nat? fields "quotes")
  | "self_closed_container" => (Json.required? Json.text? fields "tag").map selfClosedContainer
  | _ => none

/-- The kind that an object with a `type` field gives. -/
def ofJson? : Json → Option IssueKind
  | .obj fields => do ofFields? (← Json.required? Json.str? fields "type") fields
  | _ => none

end IssueKind

namespace Issue

/-- The fields of an issue. -/
def fields (i : Issue) : List (String × Json) :=
  i.kind.fields ++ [("message", .str i.message)] ++ Json.optionalField "line" .nat i.line ++
    Json.optionalField "column" .nat i.column ++
    [("severity", i.severity.toJson), ("fixable", .bool i.fixable)]

/-- An issue as JSON. -/
def toJson (i : Issue) : Json := .obj i.fields

/-- The issue that a JSON value gives. Its kind may also be given by the place of the code in
the list of all codes. -/
def ofJson? : Json → Option Issue
  | .obj fields => do
      let code ← Json.listedName? IssueKind.allCodes (← Json.lookup? "type" fields)
      return {
        kind := ← IssueKind.ofFields? code fields
        message := ← Json.required? Json.str? fields "message"
        line := ← Json.optional? Json.nat? fields "line"
        column := ← Json.optional? Json.nat? fields "column"
        severity := ← Json.required? Severity.ofJson? fields "severity"
        fixable := ← Json.required? Json.bool? fields "fixable" }
  | _ => none

end Issue

end MarkupRepair
