import MarkupRepair.Text.Basic
import MarkupRepair.Text.WordChar

/-!
# Tags

A tag starts at a `<`, an optional `/` and an ASCII letter, provided that a `>` comes before
the next `<`. Its name is the longest run of name characters. From there on a `>` ends it. A
quote character is skipped together with everything up to the same quote when that quote
occurs again before the next `<` and some `>` follows it there; every other character is
skipped by itself. A `/` just before the final `>` makes the tag self-closing.
-/

namespace MarkupRepair

/-- Characters of tag and attribute names: word characters, colon, full stop and hyphen. -/
def isNameChar (c : Char) : Bool := isWordChar c || c == ':' || c == '.' || c == '-'

/-- The three kinds of tags. -/
inductive TagKind where
  /-- A tag such as `<p>`. -/
  | opening
  /-- A tag such as `</p>`. -/
  | closing
  /-- A tag such as `<br/>`. -/
  | selfClosing
  deriving DecidableEq, Repr

/-- A tag as it is written. -/
structure TagText where
  /-- Whether a `/` follows the `<`. -/
  leadingSlash : Bool
  /-- The name as written. -/
  name : Text
  /-- What stands between the name and the final `>` or `/>`. -/
  body : Text
  /-- Whether a `/` stands just before the final `>`. -/
  trailingSlash : Bool
  deriving DecidableEq, Repr

namespace TagText

/-- A leading slash makes a closing tag, whatever stands before the `>`. -/
def kind (t : TagText) : TagKind :=
  if t.leadingSlash then .closing else if t.trailingSlash then .selfClosing else .opening

/-- The characters of the tag. -/
def toText (t : TagText) : Text :=
  '<' :: ((if t.leadingSlash then ['/'] else []) ++ t.name ++ t.body ++
    (if t.trailingSlash then ['/'] else []) ++ ['>'])

/-- Size of the tag in bytes. -/
def size (t : TagText) : Nat := Text.size t.toText

/-- Offset of the body from the `<`. -/
def bodyOffset (t : TagText) : Nat :=
  1 + (if t.leadingSlash then 1 else 0) + Text.size t.name

/-- Whether the quote `c` opens a quoted stretch before `rest`, the text up to the next `<`. -/
def opensQuoted (c : Char) (rest : Text) : Bool :=
  (c == '"' || c == '\'') && ((rest.dropWhile (· != c)).drop 1).contains '>'

/-- The text up to the `>` that ends the tag, read outside quotes (`none`) or inside a quoted
stretch (`some quote`). -/
def untilEnd : Option Char → Text → Text
  | _, [] => []
  | some q, c :: r => c :: untilEnd (if c = q then none else some q) r
  | none, c :: r =>
      if c = '>' then []
      else if opensQuoted c r then c :: untilEnd (some c) r
      else c :: untilEnd none r

/-- The tag whose `<` has just been read. -/
def read? (afterBracket : Text) : Option TagText :=
  let leadingSlash := Text.startsWith afterBracket ['/']
  let named := if leadingSlash then afterBracket.drop 1 else afterBracket
  let region := (named.dropWhile isNameChar).takeWhile (· != '<')
  if named.head?.any Char.isAlpha && region.contains '>' then
    let inner := untilEnd none region
    let trailingSlash := inner.getLast? == some '/'
    some ⟨leadingSlash, named.takeWhile isNameChar,
      if trailingSlash then inner.dropLast else inner, trailingSlash⟩
  else none

/-- The tag that a text begins with. -/
def atStart? : Text → Option TagText
  | '<' :: r => read? r
  | _ => none

/-- The tags of a text that begins at `offset`, each with the offset of its `<`. -/
def all (offset : Nat) : Text → List (Nat × TagText)
  | [] => []
  | c :: r =>
      let rest := all (offset + c.utf8Size) r
      match atStart? (c :: r) with
      | some tag => (offset, tag) :: rest
      | none => rest

end TagText

end MarkupRepair
