import MarkupRepair.Text.LineIndex
import MarkupRepair.Markup.Hidden
import MarkupRepair.Markup.Attribute
import MarkupRepair.Markup.Entity
import MarkupRepair.Markup.Header

/-!
# Scanning a document

A scan lists the tags with their attributes, the entity references and the declarations of a
document. Tags, entities and the document type are read from the masked text, the XML
declaration from the text itself. A scan never fails and judges nothing.
-/

namespace MarkupRepair

/-- An attribute of a scanned tag. -/
structure AttributeToken where
  /-- The name as written. -/
  name : Text
  /-- The value without its quotes. -/
  value : Text
  /-- The value as written after the `=`. -/
  raw : Text
  /-- How the value is written. -/
  quoting : Quoting
  /-- Where `raw` stands. -/
  span : Span
  /-- Where the name starts. -/
  position : Position
  deriving DecidableEq, Repr

/-- A tag of a scanned document. -/
structure TagToken where
  /-- The kind of tag. -/
  kind : TagKind
  /-- The name in small letters. -/
  name : Text
  /-- Where the tag stands. -/
  span : Span
  /-- Where the tag starts. -/
  position : Position
  /-- The attributes in order; a closing tag has none. -/
  attributes : List AttributeToken
  deriving DecidableEq, Repr

/-- An entity reference of a scanned document. -/
structure EntityToken where
  /-- The ampersand and the name. -/
  text : Text
  /-- Whether a name and a semicolon are there. -/
  terminated : Bool
  /-- Where the reference stands, its semicolon included. -/
  span : Span
  /-- Where the reference starts. -/
  position : Position
  deriving DecidableEq, Repr

/-- Whether the reference is an ampersand without a name. -/
def EntityToken.isBare (e : EntityToken) : Bool := e.text == ['&']

/-- What a document consists of. -/
structure Scan where
  /-- Whether the document begins with a byte order mark. -/
  byteOrderMark : Bool
  /-- The XML declaration. -/
  prolog : Option Header
  /-- The document type. -/
  doctype : Option Header
  /-- The tags in order. -/
  tags : List TagToken
  /-- The entity references in order. -/
  entities : List EntityToken
  deriving DecidableEq, Repr

/-- The token of an attribute whose name starts at an offset. -/
def AttributeToken.ofText (index : LineIndex) (found : Nat × AttributeText) : AttributeToken :=
  let (offset, a) := found
  let start := offset + Text.size a.beforeValue
  { name := a.name
    value := a.written.value
    raw := a.written.raw
    quoting := a.written.quoting
    span := ⟨start, start + Text.size a.written.raw⟩
    position := index.position offset }

/-- The token of a tag that starts at an offset. -/
def TagToken.ofText (index : LineIndex) (found : Nat × TagText) : TagToken :=
  let (offset, tag) := found
  { kind := tag.kind
    name := Text.toLowerAscii tag.name
    span := ⟨offset, offset + tag.size⟩
    position := index.position offset
    attributes :=
      if tag.kind = .closing then []
      else (AttributeText.all (offset + tag.bodyOffset) 0 tag.body).map
        (AttributeToken.ofText index) }

/-- The token of an entity reference that starts at an offset. -/
def EntityToken.ofText (index : LineIndex) (found : Nat × EntityText) : EntityToken :=
  let (offset, e) := found
  { text := e.text
    terminated := e.terminated
    span := ⟨offset, offset + e.size⟩
    position := index.position offset }

/-- Scan a document. -/
def scan (t : Text) : Scan :=
  let masked := mask t
  let index := LineIndex.ofText t
  { byteOrderMark := hasByteOrderMark t
    prolog := prologHeader? t
    doctype := doctypeHeader? 0 masked
    tags := (TagText.all 0 masked).map (TagToken.ofText index)
    entities := (EntityText.all 0 masked).map (EntityToken.ofText index) }

/-- The first attribute of a given name. -/
def TagToken.attributeNamed? (tag : TagToken) (name : Text) : Option AttributeToken :=
  tag.attributes.find? (·.name == name)

namespace Scan

/-- The root element: the first `html` tag that does not close. -/
def root? (s : Scan) : Option TagToken :=
  s.tags.find? fun tag => tag.name == "html".toList && tag.kind != .closing

/-- Whether there is a conforming XML declaration. -/
def prologConforms (s : Scan) : Bool := s.prolog.any fun h => MarkupRepair.prologConforms h.text

/-- Whether the document type is the canonical one. -/
def doctypeConforms (s : Scan) : Bool := s.doctype.any fun h => h.text == canonicalDoctype

/-- Whether the root element declares the XHTML namespace. -/
def rootHasNamespace (s : Scan) : Bool :=
  ((s.root?).bind fun root => root.attributeNamed? "xmlns".toList).any fun a =>
    a.value == xhtmlNamespace

end Scan

end MarkupRepair
