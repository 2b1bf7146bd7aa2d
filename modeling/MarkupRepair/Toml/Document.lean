import MarkupRepair.Toml.Quoted
import MarkupRepair.Toml.Scalar
import MarkupRepair.Toml.Table

/-!
# TOML documents

A document is a sequence of lines: blank ones, keys with values, and the headers of tables and
of arrays of tables. A key belongs to the table of the last header before it. Every reader
answers with what it has read and the text behind it.
-/

namespace MarkupRepair

namespace TomlDocument

/-- The text without blanks in front. -/
def skipBlanks (t : List Char) : List Char := t.dropWhile fun c => c == ' ' || c == '\t'

/-- The text from the first character that is no blank, line end or comment. Inside a comment
only allowed characters may stand. -/
def skipLines (inComment : Bool) : List Char → Option (List Char)
  | [] => some []
  | c :: r =>
      if TomlString.endsLine c r then
        if c = '\n' then skipLines false r else skipLines inComment r
      else if inComment then if TomlString.isAllowed c then skipLines true r else none
      else if c = ' ' || c = '\t' then skipLines false r
      else if c = '#' then skipLines true r
      else some (c :: r)

/-- The text behind the end of a line that holds nothing more than a comment. -/
def endLine (inComment : Bool) : List Char → Option (List Char)
  | [] => some []
  | c :: r =>
      if TomlString.endsLine c r then
        if c = '\n' then some r else endLine inComment r
      else if inComment then if TomlString.isAllowed c then endLine true r else none
      else if c = ' ' || c = '\t' then endLine false r
      else if c = '#' then endLine true r
      else none

/-- Characters of keys without quotes. -/
def isKeyChar (c : Char) : Bool := c.isAlphanum || c == '_' || c == '-'

/-- The key that a text begins with. -/
def readKey? (t : List Char) : Option (String × List Char) :=
  match t.takeWhile isKeyChar with
  | [] => TomlString.readShort? t
  | key => some (String.ofList key, t.dropWhile isKeyChar)

/-- The dotted key that a text begins with, after blanks; blanks behind it are skipped. The
fuel bounds the number of its parts. -/
def readKeys? : (fuel : Nat) → List Char → Option (List String × List Char)
  | 0, _ => none
  | fuel + 1, t => do
      let (key, r) ← readKey? (skipBlanks t)
      match skipBlanks r with
      | '.' :: r =>
          let (keys, r) ← readKeys? fuel r
          return (key :: keys, r)
      | r => return ([key], r)

/-- The dotted key that a text begins with. -/
def readPath? (t : List Char) : Option (List String × List Char) := readKeys? (t.length + 1) t

/-- A reader of values. -/
abbrev ValueReader := List Char → Option (Toml × List Char)

/-- A dotted key, an equals sign and a value. `gap` skips what may stand on either side of the
equals sign. -/
def readField? (gap : List Char → Option (List Char)) (value : ValueReader) (t : List Char) :
    Option ((List String × Toml) × List Char) := do
  let (keys, r) ← readPath? t
  let '=' :: r ← gap r | none
  let (v, r) ← value (← gap r)
  return ((keys, v), r)

/-- The rest of a list that ends with the character `close`. Commas stand between its items,
and one may stand behind the last; line ends and comments may stand anywhere between. The fuel
bounds the number of items. -/
def readList? {α : Type} (close : Char) (item : List Char → Option (α × List Char)) :
    (fuel : Nat) → List Char → Option (List α × List Char)
  | 0, _ => none
  | fuel + 1, t => do
      let next :: r ← skipLines false t | none
      if next = close then return ([], r)
      let (a, r) ← item (next :: r)
      let mark :: r ← skipLines false r | none
      if mark = close then return ([a], r)
      if mark = ',' then
        let (rest, r) ← readList? close item fuel r
        return (a :: rest, r)
      else none

/-- How deep arrays and tables in braces may be nested. -/
def maxDepth : Nat := 80

/-- The value that a text begins with, nested no deeper than `depth`. -/
def readValue? : (depth : Nat) → ValueReader
  | depth, t =>
      match t with
      | '[' :: r =>
          match depth with
          | 0 => none
          | depth + 1 => do
              let (items, r) ← readList? ']' (readValue? depth) (r.length + 1) r
              return (.array false items, r)
      | '\x7b' :: r =>
          match depth with
          | 0 => none
          | depth + 1 => do
              let field := readField? (skipLines false) (readValue? depth)
              let (fields, r) ← readList? '\x7d' field (r.length + 1) r
              return (.table .closed (← TomlEntries.ofFields fields), r)
      | c :: r =>
          if c = '"' || c = '\'' then
            (TomlString.read? (c :: r)).map fun (s, r) => (.string s, r)
          else
            let (scalar, r) := TomlScalar.span (c :: r)
            (TomlScalar.ofText? scalar).map fun value => (value, r)
      | [] => none

/-- A line that says something. -/
inductive Statement where
  /-- A value for a dotted key. -/
  | field (keys : List String) (value : Toml)
  /-- The header of a table. -/
  | table (keys : List String)
  /-- The header of the next table of an array. -/
  | element (keys : List String)

/-- The statement that a text begins with. -/
def readStatement? (t : List Char) : Option (Statement × List Char) :=
  match t with
  | '[' :: '[' :: r => do
      let (keys, r) ← readPath? r
      let ']' :: ']' :: r := r | none
      return (.element keys, r)
  | '[' :: r => do
      let (keys, r) ← readPath? r
      let ']' :: r := r | none
      return (.table keys, r)
  | t => do
      let ((keys, value), r) ← readField? (fun r => some (skipBlanks r)) (readValue? maxDepth) t
      return (.field keys value, r)

/-- The statements of a text, one on a line. The fuel bounds their number. -/
def readStatements? : (fuel : Nat) → List Char → Option (List Statement)
  | 0, _ => none
  | fuel + 1, t => do
      match ← skipLines false t with
      | [] => return []
      | t =>
          let (statement, r) ← readStatement? t
          return statement :: (← readStatements? fuel (← endLine false r))

/-- The tables of the statements so far and the path of the last header. -/
structure Assembly where
  /-- The entries of the document. -/
  entries : TomlEntries := []
  /-- The path to the table that keys belong to. -/
  current : List String := []

/-- Take a statement into account. -/
def Assembly.add (a : Assembly) : Statement → Option Assembly
  | .field keys value => do
      return { a with entries := ← a.entries.update false (TomlEntries.addAt keys value) a.current }
  | .table keys => do
      let last ← keys.getLast?
      return ⟨← a.entries.update false (TomlEntries.openTable last) keys.dropLast, keys⟩
  | .element keys => do
      let last ← keys.getLast?
      return ⟨← a.entries.update false (TomlEntries.extendArray last) keys.dropLast, keys⟩

/-- Read a document. A byte order mark in front is skipped. -/
def parse? (document : String) : Option TomlEntries := do
  let text := match document.toList with
    | c :: r => if c = Char.ofNat 0xFEFF then r else c :: r
    | [] => []
  let statements ← readStatements? (text.length + 1) text
  let assembly ← statements.foldlM Assembly.add {}
  return assembly.entries

end TomlDocument

end MarkupRepair
