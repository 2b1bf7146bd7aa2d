import MarkupRepair.Json.Value

/-!
# Printing JSON

The text of a JSON value on several lines, two spaces for each level. Strings escape quotes,
backslashes and control characters and nothing else.
-/

namespace MarkupRepair

namespace Json

/-- The digits of a control character's escape. -/
def hexDigits (n : Nat) : List Char :=
  let digit := fun k => Nat.digitChar (k % 16)
  [digit (n / 4096), digit (n / 256), digit (n / 16), digit n]

/-- How a character is written inside a string. -/
def escapeChar (c : Char) : List Char :=
  match c with
  | '"' => ['\\', '"']
  | '\\' => ['\\', '\\']
  | '\n' => ['\\', 'n']
  | '\r' => ['\\', 'r']
  | '\t' => ['\\', 't']
  | '\x08' => ['\\', 'b']
  | '\x0c' => ['\\', 'f']
  | c => if c.toNat < 0x20 then '\\' :: 'u' :: hexDigits c.toNat else [c]

/-- A string between quotes. -/
def quoted (s : String) : String :=
  String.ofList ('"' :: (s.toList.flatMap escapeChar ++ ['"']))

/-- A line break and the indentation of a level. -/
def newLine (level : Nat) : String := "\n" ++ String.ofList (List.replicate (2 * level) ' ')

mutual

/-- The text of a value whose first line is already indented to a level. -/
def prettyAt (level : Nat) : Json → String
  | .null => "null"
  | .bool b => if b then "true" else "false"
  | .nat n => toString n
  | .numeral literal => literal
  | .str s => quoted s
  | .arr [] => "[]"
  | .arr (item :: rest) =>
      "[" ++ newLine (level + 1) ++ prettyAt (level + 1) item ++ prettyItems (level + 1) rest ++
        newLine level ++ "]"
  | .obj [] => "\x7b\x7d"
  | .obj (field :: rest) =>
      "\x7b" ++ newLine (level + 1) ++ prettyField (level + 1) field ++
        prettyFields (level + 1) rest ++ newLine level ++ "\x7d"

/-- The further items of an array. -/
def prettyItems (level : Nat) : List Json → String
  | [] => ""
  | item :: rest => "," ++ newLine level ++ prettyAt level item ++ prettyItems level rest

/-- One field of an object. -/
def prettyField (level : Nat) : String × Json → String
  | (name, value) => quoted name ++ ": " ++ prettyAt level value

/-- The further fields of an object. -/
def prettyFields (level : Nat) : List (String × Json) → String
  | [] => ""
  | field :: rest => "," ++ newLine level ++ prettyField level field ++ prettyFields level rest

end

/-- The text of a value. -/
def pretty (value : Json) : String := prettyAt 0 value

end Json

end MarkupRepair
