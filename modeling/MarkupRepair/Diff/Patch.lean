import MarkupRepair.Diff.Shortest
import MarkupRepair.Diff.Compact

/-!
# Unified patches

The differences of two texts, line by line, in the layout of a unified diff: changes with
three lines of context around them, where changes whose contexts would overlap share a hunk.
-/

namespace MarkupRepair

namespace Diff

/-- Lines of context around a change. -/
def contextLines : Nat := 3

/-- The lines of a text, each with its line feed; the last one may lack it. -/
def splitLines : List Char → List (List Char)
  | [] => []
  | c :: r =>
      if c = '\n' then ['\n'] :: splitLines r
      else
        match splitLines r with
        | [] => [[c]]
        | line :: rest => (c :: line) :: rest

/-- A change: the old lines that it takes away and the new lines that it brings. -/
structure Change where
  /-- The lines that go. -/
  old : Run
  /-- The lines that come. -/
  new : Run
  deriving DecidableEq, Repr

/-- The changes of a list of chunks that begins at given lines. Neighbouring deletions and
insertions form one change. -/
def changesFrom (oldLine newLine : Nat) (pending : Option Change) : List Chunk → List Change
  | [] => pending.toList
  | .keep old new :: rest =>
      pending.toList ++ changesFrom (oldLine + old.count) (newLine + new.count) none rest
  | .delete run :: rest =>
      let change := pending.getD ⟨⟨oldLine, 0⟩, ⟨newLine, 0⟩⟩
      changesFrom (oldLine + run.count) newLine
        (some { change with old := ⟨change.old.start, change.old.count + run.count⟩ }) rest
  | .insert run :: rest =>
      let change := pending.getD ⟨⟨oldLine, 0⟩, ⟨newLine, 0⟩⟩
      changesFrom oldLine (newLine + run.count)
        (some { change with new := ⟨change.new.start, change.new.count + run.count⟩ }) rest

/-- How a line of a hunk is marked. -/
inductive LineMark where
  | context
  | delete
  | insert
  deriving DecidableEq, Repr

/-- A hunk of a patch. -/
structure Hunk where
  /-- The old lines that it covers. -/
  old : Run
  /-- The new lines that it covers. -/
  new : Run
  /-- Its lines. -/
  lines : List (LineMark × List Char)
  deriving DecidableEq, Repr

section Hunks

variable (xs ys : Array (List Char))

/-- Where the context after a change ends, in both arrays. -/
def contextEnd (change : Change) : Nat × Nat :=
  let n := min contextLines (min (xs.size - change.old.stop) (ys.size - change.new.stop))
  (change.old.stop + n, change.new.stop + n)

/-- Lines of an array with a mark. -/
def marked (mark : LineMark) (lines : Array (List Char)) (run : Run) :
    List (LineMark × List Char) :=
  (run.elements lines).map (mark, ·)

/-- The lines of a change. -/
def changeLines (change : Change) : List (LineMark × List Char) :=
  marked .delete xs change.old ++ marked .insert ys change.new

/-- The lines and the end of a hunk whose latest change is `last`, and the changes left for
later hunks. -/
def extendHunk (last : Change) : List Change →
    List (LineMark × List Char) × (Nat × Nat) × List Change
  | [] =>
      let stop := contextEnd xs ys last
      (marked .context ys ⟨last.new.stop, stop.2 - last.new.stop⟩, stop, [])
  | next :: rest =>
      let stop := contextEnd xs ys last
      if min next.old.start (xs.size - 1) - contextLines < stop.1 then
        let gap := min (next.old.start - last.old.stop) (next.new.start - last.new.stop)
        let (lines, stop, later) := extendHunk next rest
        (marked .context ys ⟨last.new.stop, gap⟩ ++ changeLines xs ys next ++ lines, stop, later)
      else (marked .context ys ⟨last.new.stop, stop.2 - last.new.stop⟩, stop, next :: rest)

/-- The hunks of a list of changes; `fuel` bounds their number. -/
def hunksWithin : (fuel : Nat) → List Change → List Hunk
  | _, [] => []
  | 0, _ => []
  | fuel + 1, first :: rest =>
      let oldStart := first.old.start - contextLines
      let newStart := first.new.start - contextLines
      let (lines, stop, later) := extendHunk xs ys first rest
      ⟨⟨oldStart, stop.1 - oldStart⟩, ⟨newStart, stop.2 - newStart⟩,
        marked .context ys ⟨newStart, first.new.start - newStart⟩ ++ changeLines xs ys first ++
          lines⟩ :: hunksWithin fuel later

end Hunks

/-- The hunks between two texts. -/
def hunks (before after : List Char) : List Hunk :=
  let xs := (splitLines before).toArray
  let ys := (splitLines after).toArray
  let changes := changesFrom 0 0 none (compact xs ys (chunks xs ys))
  hunksWithin xs ys changes.length changes

/-- The range of a hunk: its first line, from one unless it is empty, and its number of lines
unless that is one. -/
def rangeText (run : Run) : String :=
  let start := if run.count = 0 then run.start else run.start + 1
  if run.count = 1 then toString start else s!"{start},{run.count}"

/-- A line of a hunk. An empty line of context is written without its mark, and a line without
a line feed gets one and a note. -/
def lineText : LineMark × List Char → String
  | (mark, line) =>
      let sign := match mark with
        | .context => if line = ['\n'] then "" else " "
        | .delete => "-"
        | .insert => "+"
      sign ++ String.ofList line ++
        if line.getLast? = some '\n' then "" else "\n\\ No newline at end of file\n"

/-- The text of a hunk. -/
def hunkText (h : Hunk) : String :=
  s!"@@ -{rangeText h.old} +{rangeText h.new} @@\n" ++ String.join (h.lines.map lineText)

/-- The patch that turns one text of a file into another; empty when they are equal. -/
def renderPatch (path : String) (before after : List Char) : String :=
  if before = after then ""
  else
    s!"diff --git a/{path} b/{path}\n--- a/{path}\n+++ b/{path}\n" ++
      String.join ((hunks before after).map hunkText)

end Diff

end MarkupRepair
