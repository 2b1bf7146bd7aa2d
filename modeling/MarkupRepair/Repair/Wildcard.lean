/-!
# Wildcard patterns

A pattern matches a whole string, byte by byte: `*` stands for any bytes, `?` for any single
byte, and every other byte for itself. The matcher reads the pattern once and keeps, for every
beginning of the text, whether what has been read of the pattern matches that beginning.
-/

namespace MarkupRepair

namespace Wildcard

/-- The byte `*`. -/
def star : UInt8 := 42

/-- The byte `?`. -/
def question : UInt8 := 63

/-- For every place of a row, whether some place at or before it holds. -/
def anyUpTo (seen : Bool) : List Bool → List Bool
  | [] => []
  | b :: r => (seen || b) :: anyUpTo (seen || b) r

/-- One byte of the pattern: `row` tells which beginnings of the text are matched before it,
the shortest first, and the answer tells which are matched with it. -/
def step (text : List UInt8) (row : List Bool) (p : UInt8) : List Bool :=
  if p = star then anyUpTo false row
  else false :: List.zipWith (fun matched c => matched && (p == question || p == c)) row text

/-- The row before any byte of the pattern: only the empty beginning is matched. -/
def firstRow (text : List UInt8) : List Bool := true :: text.map fun _ => false

/-- Whether a pattern matches a text. -/
def accepts (pattern text : List UInt8) : Bool :=
  (pattern.foldl (step text) (firstRow text)).getLast?.getD false

end Wildcard

/-- The bytes of a string. -/
def stringBytes (s : String) : List UInt8 := s.toUTF8.toList

/-- Whether a wildcard pattern matches a string. -/
def wildcardMatches (pattern text : String) : Bool :=
  Wildcard.accepts (stringBytes pattern) (stringBytes text)

end MarkupRepair
