import MarkupRepair.Text.Basic
import MarkupRepair.Text.WordChar

/-!
# The declarations at the top of a document

The XML declaration and the document type, each with the place where it stands, and the
forms of them that conform.
-/

namespace MarkupRepair

/-- The namespace of XHTML elements. -/
def xhtmlNamespace : Text := "http://www.w3.org/1999/xhtml".toList

/-- The XML declaration that repairs write. -/
def canonicalProlog : Text := "<?xml version=\"1.0\" encoding=\"UTF-8\"?>".toList

/-- The document type that repairs write. -/
def canonicalDoctype : Text := "<!DOCTYPE html>".toList

/-- The byte order mark. -/
def byteOrderMark : Char := Char.ofNat 0xFEFF

/-- A declaration as written and where it stands. -/
structure Header where
  /-- The characters of the declaration. -/
  text : Text
  /-- Its place in the document. -/
  span : Span
  deriving DecidableEq, Repr

/-- Whether the text begins with a byte order mark. -/
def hasByteOrderMark (t : Text) : Bool := t.head? == some byteOrderMark

/-- Size of the leading byte order mark, if there is one. -/
def markSize (t : Text) : Nat := if hasByteOrderMark t then byteOrderMark.utf8Size else 0

/-- The text up to and including the first `stop`, or all of it. -/
def throughFirst (stop : Char) : Text → Text
  | [] => []
  | c :: r => if c = stop then [c] else c :: throughFirst stop r

/-- The XML declaration after an optional byte order mark: from `<?xml`, followed by white
space, `?` or `>`, to the first `>` of that line, or to the end of the line. -/
def prologHeader? (t : Text) : Option Header :=
  let start := markSize t
  let rest := Text.dropBytes start t
  match Text.afterPrefix? "<?xml".toList rest with
  | some (c :: _) =>
      if isWhiteSpace c || c == '?' || c == '>' then
        let text := throughFirst '>' (rest.takeWhile (· != '\n'))
        some ⟨text, start, start + Text.size text⟩
      else none
  | _ => none

/-- Whether the text is `"1.0"` in either kind of quotes, further characters other than angle
brackets, and a final `?>`. -/
def declaresVersionOne (t : Text) : Bool :=
  match t with
  | q :: '1' :: '.' :: '0' :: q' :: rest =>
      (q == '"' || q == '\'') && (q' == '"' || q' == '\'') &&
        match rest.reverse with
        | '>' :: '?' :: middle => middle.all fun c => c != '<' && c != '>'
        | _ => false
  | _ => false

/-- Whether an XML declaration conforms: white space and a version of 1.0 come first. -/
def prologConforms (t : Text) : Bool :=
  match Text.afterPrefix? "<?xml".toList t with
  | some (c :: r) =>
      isWhiteSpace c &&
        match Text.afterPrefix? "version".toList (trimStart r) with
        | some r =>
            match trimStart r with
            | '=' :: r => declaresVersionOne (trimStart r)
            | _ => false
        | none => false
  | _ => false

/-- The document type that a text begins with: `<!doctype` in any case, no further word
character, and then anything but angle brackets up to a `>`. -/
def doctypeAt? (t : Text) : Option Text :=
  let opening := "<!doctype".toList
  let rest := t.drop opening.length
  if Text.toLowerAscii (t.take opening.length) == opening && !rest.head?.any isWordChar then
    let body := rest.takeWhile fun c => c != '<' && c != '>'
    if (rest.drop body.length).head? == some '>' then
      some (t.take opening.length ++ body ++ ['>'])
    else none
  else none

/-- The first document type of a text that begins at `offset`. -/
def doctypeHeader? (offset : Nat) : Text → Option Header
  | [] => none
  | c :: r =>
      match doctypeAt? (c :: r) with
      | some text => some ⟨text, offset, offset + Text.size text⟩
      | none => doctypeHeader? (offset + c.utf8Size) r

end MarkupRepair
