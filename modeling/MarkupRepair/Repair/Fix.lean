import MarkupRepair.Markup.Scan
import MarkupRepair.Issue.Basic

/-!
# Fixes

One text transform for every fixable issue. A fix says what to change and, when it belongs to
a place, where. Applying it gives the changed text, or nothing when there is nothing to do or
the text it was meant for is not found: a fix changes only text that it recognises.

A fix with a place is tried at that place first and then at every other place of the line. It
looks at the character before the place and at the text after it, and answers with what
becomes of the text after it.
-/

namespace MarkupRepair

/-- The text transforms. -/
inductive Fix where
  /-- Put the canonical XML declaration on top, or in place of one that does not conform. -/
  | ensureProlog
  /-- Put the canonical document type after the XML declaration, or in place of another. -/
  | ensureDoctype
  /-- Declare the XHTML namespace on the root element. -/
  | ensureNamespace
  /-- Insert a missing closing tag near the end of the document. -/
  | closeElement (tag : Text)
  /-- Put an attribute value between double quotes. -/
  | quoteAttribute (position : Position) (name value : Text)
  /-- Reduce a run of double quotes to one, or to an empty value. -/
  | collapseQuotes (position : Position) (name : Text) (quotes : Nat)
  /-- Add the missing semicolon of a reference, or escape a lone ampersand. -/
  | terminateEntity (position : Position) (entity : Text)
  /-- Write a self-closing tag as an opening and a closing tag. -/
  | expandSelfClosing (position : Position) (tag : Text)
  deriving DecidableEq, Repr

/-- The fix for an issue, if it has one. -/
def Issue.fix? (i : Issue) : Option Fix :=
  if i.fixable then
    let position := match i.line, i.column with
      | some line, some column => some (Position.mk line column)
      | _, _ => none
    match i.kind with
    | .missingXmlDeclaration _ => some .ensureProlog
    | .missingDoctype _ => some .ensureDoctype
    | .missingNamespace => some .ensureNamespace
    | .unclosedTag tag .endOfDocument => some (.closeElement tag)
    | .unclosedTag _ _ => none
    | .unquotedAttribute name value | .malformedAttribute name value =>
        position.map (Fix.quoteAttribute · name value)
    | .invalidEntity entity => position.map (Fix.terminateEntity · entity)
    | .corruptedQuotes name quotes => position.map (Fix.collapseQuotes · name quotes)
    | .selfClosedContainer tag => position.map (Fix.expandSelfClosing · tag)
  else none

namespace Fix

/-- The place of a fix that has one. -/
def position? : Fix → Option Position
  | .quoteAttribute p _ _ | .collapseQuotes p _ _ | .terminateEntity p _
  | .expandSelfClosing p _ => some p
  | _ => none

/-- Number of bytes that a fix with a place reads from there on. -/
def reach : Fix → Nat
  | .quoteAttribute _ name value => Text.size name + 1 + Text.size value
  | .collapseQuotes _ name quotes => Text.size name + 1 + quotes
  | .terminateEntity _ entity => Text.size entity
  | .expandSelfClosing _ tag => Text.size tag + 1
  | _ => 0

/-- What a fix did, in words. -/
def describe : Fix → String
  | .ensureProlog => "Ensured XML declaration"
  | .ensureDoctype => "Ensured DOCTYPE declaration"
  | .ensureNamespace => "Added XHTML namespace to <html>"
  | .closeElement tag => s!"Inserted missing </{String.ofList tag}>"
  | .quoteAttribute _ name _ => s!"Quoted attribute {String.ofList name}"
  | .collapseQuotes _ name _ =>
      s!"Collapsed repeated quotes in attribute {String.ofList name}"
  | .terminateEntity _ ['&'] => "Escaped ampersand as &amp;"
  | .terminateEntity _ entity => s!"Terminated entity {String.ofList entity};"
  | .expandSelfClosing _ tag =>
      let tag := String.ofList tag
      s!"Expanded <{tag}/> to <{tag}></{tag}>"

/-- The assignment that a text begins with, up to and including its `=`, and what follows. An
attribute starts only after white space. -/
def assignment? (before : Option Char) (after name : Text) : Option (Text × Text) :=
  if before.any isWhiteSpace then
    match Text.afterPrefix? name after with
    | some rest =>
        match trimStart rest with
        | '=' :: r => some (name ++ rest.takeWhile isWhiteSpace ++ ['='], r)
        | _ => none
    | none => none
  else none

/-- Whether an attribute value can end before a text. -/
def endsValue : Text → Bool
  | [] => true
  | c :: _ => isWhiteSpace c || c == '>' || c == '/'

/-- A value without any quote characters, between double quotes. -/
def requote (value : Text) : Text :=
  '"' :: (value.filter (fun c => c != '"' && c != '\'') ++ ['"'])

/-- Quote the value of an attribute. Only a value that begins with a quote may stand after
white space. -/
def quoteAt (name value : Text) (before : Option Char) (after : Text) : Option Text :=
  match assignment? before after name with
  | some (assignment, rest) =>
      let quoteFirst := value.head?.any fun c => c == '"' || c == '\''
      let gap := if quoteFirst then rest.takeWhile isWhiteSpace else []
      match Text.afterPrefix? value (rest.drop gap.length) with
      | some tail =>
          if endsValue tail then some (assignment ++ gap ++ requote value ++ tail) else none
      | none => none
  | none => none

/-- Whether no attribute value comes after a run of quotes. -/
def noValue : Text → Bool
  | [] => true
  | '/' :: r => r.head? == some '>'
  | c :: _ => isWhiteSpace c || c == '>'

/-- Reduce the run of double quotes in front of an attribute value. -/
def collapseAt (name : Text) (quotes : Nat) (before : Option Char) (after : Text) :
    Option Text :=
  match assignment? before after name with
  | some (assignment, rest) =>
      let gap := rest.takeWhile isWhiteSpace
      let run := (trimStart rest).takeWhile (· == '"')
      let tail := (trimStart rest).drop run.length
      if run.length = quotes then
        some (assignment ++ gap ++ (if noValue tail then ['"', '"'] else ['"']) ++ tail)
      else none
  | none => none

/-- Complete an entity reference. A name that goes on, or that has its semicolon, is left
alone, and so is an ampersand with a name after it. -/
def terminateAt (entity : Text) (after : Text) : Option Text :=
  match Text.afterPrefix? entity after with
  | some tail =>
      if entity = ['&'] then
        if tail.head?.any isEntityNameChar then none else some ("&amp;".toList ++ tail)
      else if tail.head?.any fun c => isEntityNameChar c || c == ';' then none
      else some (entity ++ (';' :: tail))
  | none => none

/-- Write a self-closing tag of a given name as an opening and a closing tag. -/
def expandAt (name : Text) (after : Text) : Option Text :=
  match TagText.atStart? after with
  | some tag =>
      if tag.kind = .selfClosing && Text.toLowerAscii tag.name == Text.toLowerAscii name then
        some ('<' :: (tag.name ++ trimEnd tag.body ++ ['>', '<', '/'] ++ tag.name ++ ['>'] ++
          after.drop tag.toText.length))
      else none
  | none => none

/-- What becomes of the text after a place when a fix is tried there. -/
def editAt (fix : Fix) (before : Option Char) (after : Text) : Option Text :=
  match fix with
  | .quoteAttribute _ name value => quoteAt name value before after
  | .collapseQuotes _ name quotes => collapseAt name quotes before after
  | .terminateEntity _ entity => terminateAt entity after
  | .expandSelfClosing _ tag => expandAt tag after
  | _ => none

end Fix

/-- A place between two characters of a text. -/
structure Cursor where
  /-- Offset of the place. -/
  offset : Nat
  /-- The character before it. -/
  before : Option Char
  /-- The text after it. -/
  after : Text
  deriving DecidableEq, Repr

/-- The places in a text that itself begins at `offset` after the character `before`. -/
def cursorsFrom (offset : Nat) (before : Option Char) : Text → List Cursor
  | [] => [⟨offset, before, []⟩]
  | c :: r => ⟨offset, before, c :: r⟩ :: cursorsFrom (offset + c.utf8Size) (some c) r

/-- All places in a text. -/
def cursors (t : Text) : List Cursor := cursorsFrom 0 none t

namespace Fix

/-- The places at which a fix for a position is tried: the position itself, when it falls
between two characters, and then the others of its line from left to right. -/
def candidates (t : Text) (p : Position) : List Cursor :=
  let index := LineIndex.ofText t
  match index.lineSpan? p.line with
  | none => []
  | some span =>
      let recorded := (index.offset? p).filter fun o => Text.isBoundary o t
      let places := cursors t
      places.filter (fun c => recorded == some c.offset) ++
        places.filter fun c =>
          span.start ≤ c.offset && c.offset < span.stop && recorded != some c.offset

/-- Change the text at the first candidate place that a fix recognises. -/
def applyInLine (fix : Fix) (p : Position) (t : Text) : Option Text :=
  (candidates t p).findSome? fun c =>
    (fix.editAt c.before c.after).map fun after => Text.takeBytes c.offset t ++ after

/-- Ensure a conforming XML declaration. -/
def applyProlog (t : Text) : Option Text :=
  let s := scan t
  if s.prologConforms then none
  else
    match s.prolog with
    | some header => some (Text.splice t header.span canonicalProlog)
    | none => some (Text.splice t ⟨markSize t, markSize t⟩ (canonicalProlog ++ ['\n']))

/-- Ensure the canonical document type. -/
def applyDoctype (t : Text) : Option Text :=
  let s := scan t
  if s.doctypeConforms then none
  else
    match s.doctype, s.prolog with
    | some header, _ => some (Text.splice t header.span canonicalDoctype)
    | none, some header =>
        some (Text.splice t ⟨header.span.stop, header.span.stop⟩ ('\n' :: canonicalDoctype))
    | none, none => some (Text.splice t ⟨markSize t, markSize t⟩ (canonicalDoctype ++ ['\n']))

/-- The XHTML namespace between double quotes. -/
def quotedNamespace : Text := '"' :: (xhtmlNamespace ++ ['"'])

/-- Ensure the XHTML namespace on the root element: in place of a well-quoted `xmlns` value,
or after the name of a root without `xmlns`. -/
def applyNamespace (t : Text) : Option Text :=
  let s := scan t
  match s.root? with
  | none => none
  | some root =>
      if s.rootHasNamespace then none
      else
        match root.attributeNamed? "xmlns".toList with
        | some a =>
            if a.quoting = .double || a.quoting = .single then
              some (Text.splice t a.span quotedNamespace)
            else none
        | none =>
            match (Text.slice? t root.span).bind TagText.atStart? with
            | some tag =>
                let place := root.span.start + 1 + Text.size tag.name
                some (Text.splice t ⟨place, place⟩ (" xmlns=".toList ++ quotedNamespace))
            | none => none

/-- A closing tag. -/
def closingTag (tag : Text) : Text := '<' :: '/' :: (tag ++ ['>'])

/-- Where a missing closing tag goes: before `</html>` for the body, before `</body>` or else
`</html>` for elements inside it, and at the end of the document otherwise. -/
def closeAnchor? (t tag : Text) : Option Nat :=
  let html := "html".toList
  let body := "body".toList
  if tag = html then none
  else if tag = body then Text.find? (closingTag html) t
  else (Text.find? (closingTag body) t).or (Text.find? (closingTag html) t)

/-- Insert a missing closing tag. -/
def applyClose (tag t : Text) : Text :=
  match closeAnchor? t tag with
  | some offset => Text.splice t ⟨offset, offset⟩ (closingTag tag ++ ['\n'])
  | none => trimEnd t ++ ['\n'] ++ closingTag tag ++ ['\n']

/-- Apply a fix to a document. -/
def apply (fix : Fix) (t : Text) : Option Text :=
  match fix with
  | .ensureProlog => applyProlog t
  | .ensureDoctype => applyDoctype t
  | .ensureNamespace => applyNamespace t
  | .closeElement tag => some (applyClose tag t)
  | .quoteAttribute p _ _ | .collapseQuotes p _ _ | .terminateEntity p _
  | .expandSelfClosing p _ => fix.applyInLine p t

/-- The columns of a line that a fix reads. -/
structure Footprint where
  /-- The line. -/
  line : Nat
  /-- First column. -/
  start : Nat
  /-- Column just past the last one. -/
  stop : Nat
  deriving DecidableEq, Repr

/-- Whether two footprints share a column of a line. -/
def Footprint.overlaps (a b : Footprint) : Bool :=
  a.line == b.line && a.start < b.stop && b.start < a.stop

/-- The footprint of a fix with a place, never empty. -/
def footprint? (fix : Fix) : Option Footprint :=
  (fix.position?).map fun p => ⟨p.line, p.column, p.column + max fix.reach 1⟩

end Fix

end MarkupRepair
