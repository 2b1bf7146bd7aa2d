import MarkupRepair.Text.Basic

/-!
# Lines of a text

Where the lines of a text begin, and the two maps between byte offsets and positions. Lines
end at a line feed, which belongs to the line it ends but to no span; an offset on a line
feed, or at the end of the text, is one column past the last byte of its line.
-/

namespace MarkupRepair

/-- The line starts of a text, in increasing order, and its size. -/
structure LineIndex where
  /-- Offset of the first byte of every line; the first line starts at zero. -/
  starts : List Nat
  /-- Size of the text in bytes. -/
  size : Nat
  deriving DecidableEq, Repr

namespace LineIndex

/-- Offsets just past each line feed of a text that itself begins at `offset`. -/
def startsAfter (offset : Nat) : Text → List Nat
  | [] => []
  | c :: r =>
      let next := offset + c.utf8Size
      if c = '\n' then next :: startsAfter next r else startsAfter next r

/-- The index of a text. -/
def ofText (t : Text) : LineIndex := ⟨0 :: startsAfter 0 t, Text.size t⟩

/-- Number of lines, one more than the number of line feeds. -/
def lineCount (x : LineIndex) : Nat := x.starts.length

/-- The position of an offset: the last line that starts at or before it. -/
def position (x : LineIndex) (offset : Nat) : Position :=
  let line := max 1 (x.starts.takeWhile (· ≤ offset)).length
  ⟨line, offset - x.starts.getD (line - 1) 0 + 1⟩

/-- The bytes of a line, its line feed left out. -/
def lineSpan? (x : LineIndex) : Nat → Option Span
  | 0 => none
  | n + 1 => (x.starts[n]?).map fun start =>
      ⟨start, match x.starts[n + 1]? with
        | some next => next - 1
        | none => x.size⟩

/-- The offset of a position, when the line has that column or ends just before it. -/
def offset? (x : LineIndex) (p : Position) : Option Nat :=
  match x.lineSpan? p.line, p.column with
  | some span, column + 1 =>
      if span.start + column ≤ span.stop then some (span.start + column) else none
  | _, _ => none

/-- Every line feed starts one line. -/
theorem lineCount_ofText (t : Text) : (ofText t).lineCount = t.count '\n' + 1 := by
  suffices h : ∀ offset, (startsAfter offset t).length = t.count '\n' by
    simp [lineCount, ofText, h]
  induction t with
  | nil => simp [startsAfter]
  | cons c r ih =>
      intro offset
      by_cases hc : c = '\n' <;> simp [startsAfter, hc, ih]

end LineIndex

end MarkupRepair
