import MarkupRepair.Issue.Basic
import MarkupRepair.Text.WhiteSpace

/-!
# Explanations of the checks

For every code what triggers it, how bad it is, what the repair does and what to do by hand.
-/

namespace MarkupRepair

/-- The explanation of a check. -/
structure CheckExplanation where
  /-- The code of the issues that the check reports. -/
  code : String
  /-- The name of the check. -/
  title : String
  /-- The severity of its issues, as a rule. -/
  severity : Severity
  /-- When they have another severity. -/
  severityNote : Option String := none
  /-- Whether some of its issues can be repaired. -/
  fixable : Bool
  /-- What triggers the check. -/
  description : String
  /-- What the repair does. -/
  repair : String
  /-- What to do by hand. -/
  remediation : String
  deriving DecidableEq, Repr

namespace CheckExplanation

/-- Lines as one text, without a line end behind the last. -/
def ofLines (lines : List String) : String := "\n".intercalate lines

/-- The explanation of `missing_xml_declaration`. -/
def missingXmlDeclaration : CheckExplanation where
  code := "missing_xml_declaration"
  title := "Missing XML Declaration"
  severity := .error
  severityNote := some "warning when the document already has a DOCTYPE"
  fixable := true
  description := ofLines [
    "The document does not start with a conforming XML declaration.",
    "",
    "Reported when the prolog is absent, or when a `<?xml ...?>` header exists but",
    "does not declare version 1.0 and UTF-8 encoding. A leading byte-order mark is",
    "ignored."]
  repair := ofLines [
    "Inserts `<?xml version=\"1.0\" encoding=\"UTF-8\"?>` at the top of the document,",
    "or replaces the malformed header in place."]
  remediation := ofLines [
    "Add the declaration as the first line of the file:",
    "",
    "    <?xml version=\"1.0\" encoding=\"UTF-8\"?>",
    "",
    "If the file is not UTF-8, re-encode it before running xhtmlfix."]

/-- The explanation of `missing_doctype`. -/
def missingDoctype : CheckExplanation where
  code := "missing_doctype"
  title := "Missing DOCTYPE"
  severity := .error
  fixable := true
  description := "The document has no `<!DOCTYPE html>` declaration, or has a malformed one."
  repair := ofLines [
    "Inserts `<!DOCTYPE html>` directly after the XML declaration, or replaces the",
    "malformed doctype header."]
  remediation := ofLines [
    "Add the doctype after the XML declaration:",
    "",
    "    <!DOCTYPE html>"]

/-- The explanation of `missing_namespace`. -/
def missingNamespace : CheckExplanation where
  code := "missing_namespace"
  title := "Missing XHTML Namespace"
  severity := .error
  fixable := true
  description := ofLines [
    "The root `<html>` element does not declare the XHTML namespace.",
    "",
    "Without `xmlns=\"http://www.w3.org/1999/xhtml\"` the document is not XHTML and",
    "reading systems may fall back to quirks handling."]
  repair := ofLines [
    "Adds the namespace attribute to the root element, or corrects an existing",
    "`xmlns` value."]
  remediation := ofLines [
    "Declare the namespace on the root element:",
    "",
    "    <html xmlns=\"http://www.w3.org/1999/xhtml\">"]

/-- The explanation of `unclosed_tag`. -/
def unclosedTag : CheckExplanation where
  code := "unclosed_tag"
  title := "Unclosed Tag"
  severity := .fatal
  fixable := true
  description := ofLines [
    "An element was opened but never closed, or a closing tag has no matching",
    "opener.",
    "",
    "Three shapes are reported:",
    "- the element is still open at the end of the document",
    "- an outer element was closed while this one was still open",
    "- a closing tag arrived with nothing to close"]
  repair := ofLines [
    "Only elements still open at the end of the document are repaired: the missing",
    "closing tags are appended in nesting order. Interrupted elements and stray",
    "closing tags are never repaired automatically because the right place for the",
    "missing tag cannot be derived from the text."]
  remediation := ofLines [
    "Find the reported line and add the closing tag where the element's content",
    "ends. For a stray closing tag, remove it or add the opener it belongs to."]

/-- The explanation of `unquoted_attribute`. -/
def unquotedAttribute : CheckExplanation where
  code := "unquoted_attribute"
  title := "Unquoted Attribute Value"
  severity := .error
  fixable := true
  description := "An attribute value is written without quotes, as in `class=note`."
  repair := "Wraps the value in double quotes: `class=\"note\"`."
  remediation := "Quote every attribute value. XHTML does not allow bare values."

/-- The explanation of `malformed_attribute`. -/
def malformedAttribute : CheckExplanation where
  code := "malformed_attribute"
  title := "Malformed Attribute"
  severity := .fatal
  fixable := true
  description := ofLines [
    "An attribute value opens a quote that never closes, or is unquoted and",
    "contains characters that make its end ambiguous."]
  repair := "Re-quotes the value with a balanced pair of double quotes."
  remediation := ofLines [
    "Check what the attribute was meant to say. A missing quote often swallows",
    "the rest of the tag, so the repaired value may still need trimming."]

/-- The explanation of `invalid_entity`. -/
def invalidEntity : CheckExplanation where
  code := "invalid_entity"
  title := "Invalid Entity Reference"
  severity := .fatal
  fixable := true
  description := ofLines [
    "A bare `&` appears in text, or an entity reference is not terminated with `;`.",
    "",
    "XML parsers reject the whole document on the first bad entity."]
  repair := ofLines [
    "Escapes a bare ampersand as `&amp;` and terminates an unterminated reference",
    "with `;`."]
  remediation := ofLines [
    "Write `&amp;` for a literal ampersand. Named entities other than the five XML",
    "ones must be replaced by numeric references or the character itself."]

/-- The explanation of `corrupted_quotes`. -/
def corruptedQuotes : CheckExplanation where
  code := "corrupted_quotes"
  title := "Corrupted Attribute Quotes"
  severity := .fatal
  fixable := true
  description := ofLines [
    "An attribute value starts with a run of repeated quote characters, as in",
    "`class=\"\"note\"\"`. Usually left behind by a broken search-and-replace."]
  repair := "Collapses the repeated quotes to a single pair."
  remediation := "Fix the value by hand and check the tool that produced the file."

/-- The explanation of `self_closed_container`. -/
def selfClosedContainer : CheckExplanation where
  code := "self_closed_container"
  title := "Self-Closed Container Element"
  severity := .warning
  fixable := true
  description := ofLines [
    "A non-void element is written in self-closing form, as in `<div/>`.",
    "",
    "Valid XML, but HTML parsers treat it as an open tag and swallow the content",
    "that follows."]
  repair := "Expands `<div/>` to `<div></div>`."
  remediation := ofLines [
    "Use an explicit closing tag for every element that is not void (`br`, `img`,",
    "`hr`, `meta`, `link`, `input` and friends)."]

/-- The explanations of all checks in report order. -/
def all : List CheckExplanation :=
  [missingXmlDeclaration, missingDoctype, missingNamespace, unclosedTag, unquotedAttribute,
    malformedAttribute, invalidEntity, corruptedQuotes, selfClosedContainer]

/-- Every code is explained once, in the same order. -/
theorem map_code_all : all.map (·.code) = IssueKind.allCodes := rfl

/-- A code as somebody may write it: with white space around it, capital letters, and hyphens
for underscores. Codes are ASCII, so only letters of ASCII are made small. -/
def normalize (query : String) : String :=
  String.ofList ((trim query.toList).map fun c => if c = '-' then '_' else c.toLower)

/-- The explanation of the check that a query names. -/
def lookup? (query : String) : Option CheckExplanation :=
  all.find? (·.code == normalize query)

end CheckExplanation

/-- What a severity means for a run. -/
def Severity.meaning : Severity → String
  | .warning => "WARNING issues are reported but never fail a run on their own."
  | .error =>
      "ERROR issues fail `xhtmlfix check`. A repair that leaves them behind is\n" ++
      "committed and reported as `partial`."
  | .fatal =>
      "FATAL issues mean the document cannot be parsed as XML. A repair that\n" ++
      "leaves any fatal issue behind is rejected and the file is not written."

end MarkupRepair
