import MarkupRepair.Json.Text
import MarkupRepair.Markup.Scan

/-!
# Scans as JSON

What a scan found, with the place of everything and what can be said about the whole document.
-/

namespace MarkupRepair

/-- The name of a kind of tag. -/
def TagKind.name : TagKind → String
  | .opening => "open"
  | .closing => "close"
  | .selfClosing => "self_closing"

/-- The name of a way of quoting. -/
def Quoting.name : Quoting → String
  | .double => "double"
  | .single => "single"
  | .unquoted => "unquoted"
  | .unterminated => "unterminated"
  | .corrupted quotes => s!"corrupted:{quotes}"

/-- The fields of a place in a document. -/
def placeFields (span : Span) (p : Position) : List (String × Json) :=
  [("span", span.toJson), ("line", .nat p.line), ("column", .nat p.column)]

/-- An attribute as JSON. -/
def AttributeToken.toJson (a : AttributeToken) : Json :=
  .obj ([("name", .ofText a.name), ("value", .ofText a.value), ("raw", .ofText a.raw),
    ("quoting", .str a.quoting.name)] ++ placeFields a.span a.position)

/-- A tag as JSON. -/
def TagToken.toJson (t : TagToken) : Json :=
  .obj ([("kind", .str t.kind.name), ("name", .ofText t.name),
    ("attributes", .ofList AttributeToken.toJson t.attributes)] ++ placeFields t.span t.position)

/-- An entity reference as JSON. -/
def EntityToken.toJson (e : EntityToken) : Json :=
  .obj ([("text", .ofText e.text), ("terminated", .bool e.terminated),
    ("bare", .bool e.isBare)] ++ placeFields e.span e.position)

/-- A declaration as JSON. -/
def Header.toJson (h : Header) : Json :=
  .obj [("text", .ofText h.text), ("span", h.span.toJson)]

/-- A scan as JSON. -/
def Scan.toJson (s : Scan) : Json :=
  .obj [("bom", .bool s.byteOrderMark), ("prolog", .ofOption Header.toJson s.prolog),
    ("doctype", .ofOption Header.toJson s.doctype), ("tags", .ofList TagToken.toJson s.tags),
    ("entities", .ofList EntityToken.toJson s.entities),
    ("prolog_conforms", .bool s.prologConforms), ("doctype_conforms", .bool s.doctypeConforms),
    ("root_has_namespace", .bool s.rootHasNamespace),
    ("root_at", .ofOption (fun t => .nat t.span.start) s.root?)]

/-- A tag as it is written, as JSON. -/
def TagText.toJson (t : TagText) : Json :=
  .obj [("kind", .str t.kind.name), ("name", .ofText t.name), ("body", .ofText t.body),
    ("len", .nat t.size)]

end MarkupRepair
