/-!
# White space

The characters with the Unicode property White_Space, and trimming by them. A control
character such as U+001C and a zero-width space do not count; a next-line character, a
no-break space and an ideographic space do.
-/

namespace MarkupRepair

/-- Membership in the Unicode property White_Space. -/
def isWhiteSpace (c : Char) : Bool :=
  let n := c.toNat
  (9 ≤ n && n ≤ 13) || n == 0x20 || n == 0x85 || n == 0xA0 || n == 0x1680 ||
    (0x2000 ≤ n && n ≤ 0x200A) || n == 0x2028 || n == 0x2029 || n == 0x202F ||
    n == 0x205F || n == 0x3000

/-- The core library's blanks are white space here too. -/
theorem isWhiteSpace_of_isWhitespace {c : Char} (h : c.isWhitespace = true) :
    isWhiteSpace c = true := by
  simp only [Char.isWhitespace, Bool.or_eq_true, decide_eq_true_eq] at h
  rcases h with ((rfl | rfl) | rfl) | rfl <;> decide

/-- The text without its leading white space. -/
def trimStart (t : List Char) : List Char := t.dropWhile isWhiteSpace

/-- The text without its trailing white space. -/
def trimEnd (t : List Char) : List Char := (t.reverse.dropWhile isWhiteSpace).reverse

/-- The text without white space at either end. -/
def trim (t : List Char) : List Char := trimEnd (trimStart t)

/-- A text is its leading white space followed by what trimming leaves. -/
theorem takeWhile_append_trimStart (t : List Char) :
    t.takeWhile isWhiteSpace ++ trimStart t = t :=
  List.takeWhile_append_dropWhile

end MarkupRepair
