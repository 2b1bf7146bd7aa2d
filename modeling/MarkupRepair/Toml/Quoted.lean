/-!
# Quoted strings of TOML

The four kinds of strings: in double quotes with escapes or in single quotes without any, on
one line or, between three quotes, over several. Every reader starts behind the opening quotes
and answers with the characters of the string and the text behind the closing quotes.
-/

namespace MarkupRepair.TomlString

/-- Whether a character may stand in a string or comment: anything but controls, a tab
excepted. -/
def isAllowed (c : Char) : Bool := c == '\t' || (32 ≤ c.toNat && c.toNat != 127)

/-- The character that a letter behind a backslash stands for. -/
def escaped? : Char → Option Char
  | 'b' => some (Char.ofNat 8)
  | 't' => some '\t'
  | 'n' => some '\n'
  | 'f' => some (Char.ofNat 12)
  | 'e' => some (Char.ofNat 27)
  | 'r' => some '\r'
  | '"' => some '"'
  | '\\' => some '\\'
  | _ => none

/-- The value of a digit in base 16. -/
def hexValue? (c : Char) : Option Nat :=
  if c.isDigit then some (c.toNat - '0'.toNat)
  else if 'a' ≤ c && c ≤ 'f' then some (c.toNat - 'a'.toNat + 10)
  else if 'A' ≤ c && c ≤ 'F' then some (c.toNat - 'A'.toNat + 10)
  else none

/-- The character whose number is written in digits of base 16. -/
def character? (digits : List Char) : Option Char := do
  let values ← digits.mapM hexValue?
  let n := values.foldl (fun n d => 16 * n + d) 0
  if n.isValidChar then some (Char.ofNat n) else none

/-- Put a character in front of what is read. -/
def prepend (c : Char) : List Char × List Char → List Char × List Char
  | (s, rest) => (c :: s, rest)

/-- The rest of a string in double quotes. -/
def readBasic : List Char → Option (List Char × List Char)
  | [] => none
  | '"' :: r => some ([], r)
  | '\\' :: 'x' :: a :: b :: r => do
      let x ← character? [a, b]
      return prepend x (← readBasic r)
  | '\\' :: 'u' :: a :: b :: c :: d :: r => do
      let x ← character? [a, b, c, d]
      return prepend x (← readBasic r)
  | '\\' :: 'U' :: a :: b :: c :: d :: e :: f :: g :: h :: r => do
      let x ← character? [a, b, c, d, e, f, g, h]
      return prepend x (← readBasic r)
  | '\\' :: c :: r => do
      let x ← escaped? c
      return prepend x (← readBasic r)
  | c :: r => if isAllowed c then (readBasic r).map (prepend c) else none

/-- The rest of a string in single quotes. -/
def readLiteral : List Char → Option (List Char × List Char)
  | [] => none
  | '\'' :: r => some ([], r)
  | c :: r => if isAllowed c then (readLiteral r).map (prepend c) else none

/-- Whether a line ends with the character `c` before `rest`. -/
def endsLine (c : Char) (rest : List Char) : Bool :=
  c == '\n' || (c == '\r' && rest.head? == some '\n')

/-- Whether nothing but blanks stands before the end of the line. -/
def isBlankLine : List Char → Bool
  | [] => false
  | c :: r => endsLine c r || ((c == ' ' || c == '\t') && isBlankLine r)

/-- The rest of a string between three double quotes. Up to two quotes may stand in front of
the closing ones. While `skipping`, blanks and line ends belong to a backslash at the end of a
line and are left out. -/
def readLongBasic (skipping : Bool) : List Char → Option (List Char × List Char)
  | [] => none
  | '"' :: '"' :: '"' :: '"' :: '"' :: r => some (['"', '"'], r)
  | '"' :: '"' :: '"' :: '"' :: r => some (['"'], r)
  | '"' :: '"' :: '"' :: r => some ([], r)
  | '\\' :: 'x' :: a :: b :: r => do
      let x ← character? [a, b]
      return prepend x (← readLongBasic false r)
  | '\\' :: 'u' :: a :: b :: c :: d :: r => do
      let x ← character? [a, b, c, d]
      return prepend x (← readLongBasic false r)
  | '\\' :: 'U' :: a :: b :: c :: d :: e :: f :: g :: h :: r => do
      let x ← character? [a, b, c, d, e, f, g, h]
      return prepend x (← readLongBasic false r)
  | '\\' :: c :: r =>
      match escaped? c with
      | some x => (readLongBasic false r).map (prepend x)
      | none => if isBlankLine (c :: r) then readLongBasic true r else none
  | c :: r =>
      if skipping && (c == ' ' || c == '\t' || endsLine c r) then readLongBasic true r
      else if isAllowed c || endsLine c r then (readLongBasic false r).map (prepend c)
      else none

/-- The rest of a string between three single quotes. Up to two quotes may stand in front of
the closing ones. -/
def readLongLiteral : List Char → Option (List Char × List Char)
  | [] => none
  | '\'' :: '\'' :: '\'' :: '\'' :: '\'' :: r => some (['\'', '\''], r)
  | '\'' :: '\'' :: '\'' :: '\'' :: r => some (['\''], r)
  | '\'' :: '\'' :: '\'' :: r => some ([], r)
  | c :: r =>
      if isAllowed c || endsLine c r then (readLongLiteral r).map (prepend c) else none

/-- The text without a line end right at its front. -/
def dropLineEnd : List Char → List Char
  | '\n' :: r => r
  | '\r' :: '\n' :: r => r
  | r => r

/-- The string on one line that a text begins with. -/
def readShort? : List Char → Option (String × List Char)
  | '"' :: r => (readBasic r).map fun (s, rest) => (String.ofList s, rest)
  | '\'' :: r => (readLiteral r).map fun (s, rest) => (String.ofList s, rest)
  | _ => none

/-- The string of any kind that a text begins with. -/
def read? (t : List Char) : Option (String × List Char) :=
  match t with
  | '"' :: '"' :: '"' :: r =>
      (readLongBasic false (dropLineEnd r)).map fun (s, rest) => (String.ofList s, rest)
  | '\'' :: '\'' :: '\'' :: r =>
      (readLongLiteral (dropLineEnd r)).map fun (s, rest) => (String.ofList s, rest)
  | t => readShort? t

end MarkupRepair.TomlString
