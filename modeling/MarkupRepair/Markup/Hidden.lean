import MarkupRepair.Text.Basic

/-!
# Comments and CDATA sections

Text inside a comment or a CDATA section is not markup. A section runs from its opener to
the first closer after the opener, or to the end of the text when no closer follows. This
file marks every character of a text as plain or as part of a section, lists the sections,
and masks them: each hidden character other than a line feed becomes as many spaces as it
has bytes, so masking keeps every offset and every line.
-/

namespace MarkupRepair

/-- The two kinds of sections whose contents are not markup. -/
inductive HiddenKind where
  | comment
  | cdata
  deriving DecidableEq, Repr

/-- The characters that open a section. -/
def HiddenKind.opener : HiddenKind → Text
  | .comment => ['<', '!', '-', '-']
  | .cdata => ['<', '!', '[', 'C', 'D', 'A', 'T', 'A', '[']

/-- The characters that close a section. -/
def HiddenKind.closer : HiddenKind → Text
  | .comment => ['-', '-', '>']
  | .cdata => [']', ']', '>']

/-- The kind of section that a text opens with, if any. -/
def HiddenKind.at? (t : Text) : Option HiddenKind :=
  if Text.startsWith t HiddenKind.comment.opener then some .comment
  else if Text.startsWith t HiddenKind.cdata.opener then some .cdata
  else none

/-- How one character of a text stands to the hidden sections. -/
inductive Mark where
  /-- Outside every section. -/
  | plain
  /-- The first character of a section. -/
  | opens
  /-- A further character of a section. -/
  | within
  deriving DecidableEq, Repr

/-- The marks of a text read inside a section (`some kind`) or outside (`none`), the first
`pending` characters being the rest of an opener or closer already recognised. -/
def marksFrom : Option HiddenKind → (pending : Nat) → Text → List Mark
  | _, _, [] => []
  | zone, pending + 1, _ :: r => .within :: marksFrom zone pending r
  | some kind, 0, c :: r =>
      if Text.startsWith (c :: r) kind.closer then
        .within :: marksFrom none (kind.closer.length - 1) r
      else .within :: marksFrom (some kind) 0 r
  | none, 0, c :: r =>
      match HiddenKind.at? (c :: r) with
      | some kind => .opens :: marksFrom (some kind) (kind.opener.length - 1) r
      | none => .plain :: marksFrom none 0 r

/-- The mark of every character of a text. -/
def marks (t : Text) : List Mark := marksFrom none 0 t

/-- Every character has exactly one mark. -/
@[simp] theorem length_marksFrom (zone : Option HiddenKind) (pending : Nat) (t : Text) :
    (marksFrom zone pending t).length = t.length := by
  fun_induction marksFrom zone pending t <;> simp_all

/-- What stands for one character in the masked text. -/
def maskChar : Char → Mark → Text
  | c, .plain => [c]
  | c, _ => if c = '\n' then ['\n'] else List.replicate c.utf8Size ' '

/-- A masked character keeps its size. -/
@[simp] theorem size_maskChar (c : Char) (m : Mark) : Text.size (maskChar c m) = c.utf8Size := by
  have h : ∀ n, Text.size (List.replicate n ' ') = n := by
    intro n
    induction n with
    | zero => rfl
    | succ n ih =>
        simp only [List.replicate_succ, Text.size_cons, ih]
        rw [show (' ').utf8Size = 1 from rfl, Nat.add_comm]
  cases m <;> simp only [maskChar]
  · simp
  all_goals
    split
    · subst c; rfl
    · exact h _

/-- The text with its hidden sections blanked. -/
def mask (t : Text) : Text := ((t.zip (marks t)).map fun p => maskChar p.1 p.2).flatten

/-- Masking keeps every offset. -/
@[simp] theorem size_mask (t : Text) : Text.size (mask t) = Text.size t := by
  suffices h : ∀ ms : List Mark, ms.length = t.length →
      Text.size ((t.zip ms).map fun p => maskChar p.1 p.2).flatten = Text.size t from
    h _ (by simp [marks])
  induction t with
  | nil => simp
  | cons c r ih =>
      intro ms h
      cases ms with
      | nil => simp at h
      | cons m ms => simp [ih ms (by simpa using h)]

/-- The hidden characters of a marked text, cut before each character that opens a section. -/
def sectionsFrom : List (Char × Mark) → List Text
  | [] => []
  | (_, .plain) :: r => sectionsFrom r
  | (c, .opens) :: r => (c :: (r.takeWhile (·.2 == .within)).map (·.1)) :: sectionsFrom r
  | (_, .within) :: r => sectionsFrom r

/-- The hidden sections of a text as written, in order. -/
def hiddenSections (t : Text) : List Text := sectionsFrom (t.zip (marks t))

end MarkupRepair
