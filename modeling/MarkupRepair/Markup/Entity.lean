import MarkupRepair.Text.Basic

/-!
# Entity references

Every `&` starts a reference, whose name is the longest run of entity name characters after
it, possibly empty. A reference is terminated when it has a name and a semicolon follows.
-/

namespace MarkupRepair

/-- Characters of entity names: all but white space, semicolon, angle brackets, ampersand and
quotes. -/
def isEntityNameChar (c : Char) : Bool :=
  !(isWhiteSpace c || c == ';' || c == '<' || c == '>' || c == '&' || c == '"' || c == '\'')

/-- An entity reference as it is written. -/
structure EntityText where
  /-- The name, empty for a lone ampersand. -/
  name : Text
  /-- Whether a semicolon follows. -/
  semicolon : Bool
  deriving DecidableEq, Repr

namespace EntityText

/-- The reference whose `&` has just been read. -/
def read (afterAmpersand : Text) : EntityText :=
  ⟨afterAmpersand.takeWhile isEntityNameChar,
    Text.startsWith (afterAmpersand.dropWhile isEntityNameChar) [';']⟩

/-- The characters of the reference without its semicolon. -/
def text (e : EntityText) : Text := '&' :: e.name

/-- A semicolon terminates a name, but not a lone ampersand. -/
def terminated (e : EntityText) : Bool := e.semicolon && !e.name.isEmpty

/-- Size in bytes, the semicolon included. -/
def size (e : EntityText) : Nat := Text.size e.text + if e.semicolon then 1 else 0

/-- The references of a text that begins at `offset`, each with the offset of its `&`. -/
def all (offset : Nat) : Text → List (Nat × EntityText)
  | [] => []
  | c :: r =>
      let rest := all (offset + c.utf8Size) r
      if c = '&' then (offset, read r) :: rest else rest

end EntityText

end MarkupRepair
