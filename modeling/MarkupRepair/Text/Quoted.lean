import MarkupRepair.Text.Unseen

/-!
# Texts in quotes

A text between double quotes in which nothing is invisible: quotes, backslashes, line ends and
tabs are written with a backslash, and marks that attach to another character, separators and
characters without a shape by their number.
-/

namespace MarkupRepair

/-- A character as it is written between quotes. -/
def quotedChar (c : Char) : List Char :=
  if c = '"' || c = '\\' then ['\\', c]
  else if c = '\n' then ['\\', 'n']
  else if c = '\r' then ['\\', 'r']
  else if c = '\t' then ['\\', 't']
  else if c = Char.ofNat 0 then ['\\', '0']
  else if isUnseen c then '\\' :: 'u' :: '\x7b' :: (Nat.toDigits 16 c.toNat ++ ['\x7d'])
  else [c]

/-- A text between quotes. -/
def quotedText (s : String) : String :=
  String.ofList ('"' :: (s.toList.flatMap quotedChar ++ ['"']))

end MarkupRepair
