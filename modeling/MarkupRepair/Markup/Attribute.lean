import MarkupRepair.Markup.Tag

/-!
# Attributes

An attribute is white space, a name, optional white space, `=` and a value. A value in quotes
may follow more white space and runs to the same quote; without such a quote it runs to the
end of the tag body, less trailing white space. Three or more double quotes in a row are a
corrupted opening: the value then runs to the next double quote, or else to the next white
space. Any other value starts right after the `=` and ends at white space, so that white space
there means an empty value.
-/

namespace MarkupRepair

/-- How an attribute value is written. -/
inductive Quoting where
  /-- Between double quotes. -/
  | double
  /-- Between single quotes. -/
  | single
  /-- Without quotes. -/
  | unquoted
  /-- With an opening quote that is never closed. -/
  | unterminated
  /-- With a run of three or more double quotes in front. -/
  | corrupted (quotes : Nat)
  deriving DecidableEq, Repr

/-- An attribute value as it is written. -/
structure ValueText where
  /-- White space between the `=` and the value. -/
  gap : Text
  /-- The value with its quotes. -/
  raw : Text
  /-- The value without its quotes. -/
  value : Text
  /-- The way of quoting. -/
  quoting : Quoting
  deriving DecidableEq, Repr

namespace ValueText

/-- The value of a corrupted opening: `after` follows its run of quotes. -/
def afterRun (after : Text) : Text × Text :=
  if after.contains '"' then
    let value := after.takeWhile (· != '"')
    (value, value ++ ['"'])
  else
    let value := after.takeWhile fun c => !isWhiteSpace c
    (value, value)

/-- The value in a tag body after the `=` of its attribute. -/
def read (afterEquals : Text) : ValueText :=
  let gap := afterEquals.takeWhile isWhiteSpace
  let written := trimStart afterEquals
  match written with
  | [] => ⟨[], [], [], .unquoted⟩
  | q :: inner =>
      if q = '"' || q = '\'' then
        let run := written.takeWhile (· == q)
        if q = '"' && 3 ≤ run.length then
          let (value, rest) := afterRun (written.drop run.length)
          ⟨gap, run ++ rest, value, .corrupted run.length⟩
        else if inner.contains q then
          let value := inner.takeWhile (· != q)
          ⟨gap, q :: (value ++ [q]), value, if q = '"' then .double else .single⟩
        else
          let raw := trimEnd written
          ⟨gap, raw, raw.drop 1, .unterminated⟩
      else
        let raw := if gap.isEmpty then written.takeWhile (fun c => !isWhiteSpace c) else []
        ⟨[], raw, raw, .unquoted⟩

end ValueText

/-- An attribute as it is written. -/
structure AttributeText where
  /-- The name. -/
  name : Text
  /-- White space between the name and the `=`. -/
  space : Text
  /-- The value after the `=`. -/
  written : ValueText
  deriving DecidableEq, Repr

namespace AttributeText

/-- Whether a character can begin an attribute name. -/
def isNameStart (c : Char) : Bool := c.isAlpha || c == '_'

/-- The attribute that a text begins with. -/
def read? (t : Text) : Option AttributeText :=
  if t.head?.any isNameStart then
    let rest := t.dropWhile isNameChar
    match trimStart rest with
    | '=' :: afterEquals =>
        some ⟨t.takeWhile isNameChar, rest.takeWhile isWhiteSpace, ValueText.read afterEquals⟩
    | _ => none
  else none

/-- The attribute up to and including the `=`, and the gap after it. -/
def beforeValue (a : AttributeText) : Text := a.name ++ a.space ++ ['='] ++ a.written.gap

/-- The characters of the attribute. -/
def toText (a : AttributeText) : Text := a.beforeValue ++ a.written.raw

/-- The attributes of a tag body that begins at `offset`, each with the offset of its name.
The first `skip` characters belong to an attribute already read. -/
def all (offset skip : Nat) : Text → List (Nat × AttributeText)
  | [] => []
  | c :: r =>
      let next := offset + c.utf8Size
      match skip with
      | skip + 1 => all next skip r
      | 0 =>
          match if isWhiteSpace c then read? r else none with
          | some a => (next, a) :: all next a.toText.length r
          | none => all next 0 r

end AttributeText

end MarkupRepair
