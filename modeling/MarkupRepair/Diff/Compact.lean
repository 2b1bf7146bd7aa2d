import MarkupRepair.Diff.Chunk

/-!
# Compacting differences

Every deletion, and then every insertion, is moved up as far as its lines allow and then down
as far as they allow, so that it joins others of its kind on the way. Moving past kept lines
trades equal lines at one end of the change for equal lines at the other.
-/

namespace MarkupRepair

namespace Diff

/-- How often a change in a list of chunks can move at most: past every line and chunk. -/
def moveBound (chunks : List Chunk) : Nat := chunks.foldl (fun n c => n + (c.count + 1)) 0

section Move

variable {α : Type} [BEq α] (xs ys : Array α)

/-- Number of lines by which a change can move up into the kept lines above it. -/
def liftCount (change : Chunk) (old new : Run) : Nat :=
  match change with
  | .insert run => commonBack ys ys run new
  | .delete run => commonBack xs xs run old
  | .keep _ _ => 0

/-- Number of lines by which a change can move down into the kept lines below it. -/
def sinkCount (change : Chunk) (old new : Run) : Nat :=
  match change with
  | .insert run => commonFront ys ys run new
  | .delete run => commonFront xs xs run old
  | .keep _ _ => 0

/-- A change whose lines start `n` earlier. -/
def Chunk.earlier (n : Nat) : Chunk → Chunk
  | .insert run => .insert ⟨run.start - n, run.count⟩
  | .delete run => .delete ⟨run.start - n, run.count⟩
  | chunk => chunk

/-- A change whose lines start `n` later. -/
def Chunk.later (n : Nat) : Chunk → Chunk
  | .insert run => .insert ⟨run.start + n, run.count⟩
  | .delete run => .delete ⟨run.start + n, run.count⟩
  | chunk => chunk

/-- The lines that are kept below a change once it has moved up by `n` lines. -/
def keptBelow (n : Nat) (change : Chunk) (old new : Run) : List Chunk → List Chunk
  | .keep o m :: rest => .keep ⟨o.start - n, o.count + n⟩ ⟨m.start - n, m.count + n⟩ :: rest
  | rest =>
      match change with
      | .insert run => .keep (old.takeLast n) (run.takeLast n) :: rest
      | .delete run => .keep (run.takeLast n) (new.takeLast n) :: rest
      | .keep _ _ => rest

/-- The lines that are kept above a change, nearest first, once it has moved down by `n`
lines. -/
def keptAbove (n : Nat) (change : Chunk) (old new : Run) : List Chunk → List Chunk
  | .keep o m :: rest => .keep ⟨o.start, o.count + n⟩ ⟨m.start, m.count + n⟩ :: rest
  | rest =>
      match change with
      | .insert run => .keep (old.take n) (run.take n) :: rest
      | .delete run => .keep (run.take n) (new.take n) :: rest
      | .keep _ _ => rest

/-- Move a change up as far as it goes. `above` is listed nearest first. -/
def moveUp : (fuel : Nat) → (above : List Chunk) → Chunk → (below : List Chunk) →
    List Chunk × Chunk × List Chunk
  | 0, above, change, below => (above, change, below)
  | _ + 1, [], change, below => ([], change, below)
  | fuel + 1, .keep old new :: rest, change, below =>
      let n := liftCount xs ys change old new
      if n ≠ 0 then
        let below := keptBelow n change old new below
        let above := if old.count = n then rest else .keep (old.dropLast n) (new.dropLast n) :: rest
        moveUp fuel above (change.earlier n) below
      else if old.count = 0 then moveUp fuel rest change below
      else (.keep old new :: rest, change, below)
  | fuel + 1, .insert run :: rest, .insert this, below =>
      moveUp fuel rest (.insert ⟨run.start, run.count + this.count⟩) below
  | fuel + 1, .delete run :: rest, .delete this, below =>
      moveUp fuel rest (.delete ⟨run.start, run.count + this.count⟩) below
  | fuel + 1, other :: rest, change, below => moveUp fuel rest change (other :: below)

/-- Move a change down as far as it goes. `above` is listed nearest first. -/
def moveDown : (fuel : Nat) → (above : List Chunk) → Chunk → (below : List Chunk) →
    List Chunk × Chunk × List Chunk
  | 0, above, change, below => (above, change, below)
  | _ + 1, above, change, [] => (above, change, [])
  | fuel + 1, above, change, .keep old new :: rest =>
      let n := sinkCount xs ys change old new
      if n ≠ 0 then
        let above := keptAbove n change old new above
        let below := if old.count = n then rest else .keep (old.drop n) (new.drop n) :: rest
        moveDown fuel above (change.later n) below
      else if old.count = 0 then moveDown fuel above change rest
      else (above, change, .keep old new :: rest)
  | fuel + 1, above, .insert this, .insert run :: rest =>
      moveDown fuel above (.insert ⟨this.start, this.count + run.count⟩) rest
  | fuel + 1, above, .delete this, .delete run :: rest =>
      moveDown fuel above (.delete ⟨this.start, this.count + run.count⟩) rest
  | fuel + 1, above, change, other :: rest => moveDown fuel (other :: above) change rest

/-- Move every change that `moves` selects, from top to bottom. `above` is listed nearest
first. -/
def settle (moves : Chunk → Bool) : (fuel : Nat) → (above below : List Chunk) → List Chunk
  | 0, above, below => above.reverse ++ below
  | _ + 1, above, [] => above.reverse
  | fuel + 1, above, chunk :: rest =>
      if moves chunk then
        let bound := moveBound (above ++ chunk :: rest)
        let (above, chunk, below) := moveUp xs ys bound above chunk rest
        let (above, chunk, below) := moveDown xs ys bound above chunk below
        settle moves fuel (chunk :: above) below
      else settle moves fuel (chunk :: above) rest

/-- Whether a chunk deletes lines. -/
def Chunk.isDelete : Chunk → Bool
  | .delete _ => true
  | _ => false

/-- Whether a chunk inserts lines. -/
def Chunk.isInsert : Chunk → Bool
  | .insert _ => true
  | _ => false

/-- Compact a list of chunks. -/
def compact (chunks : List Chunk) : List Chunk :=
  let settled := settle xs ys Chunk.isDelete (4 * moveBound chunks + 4) [] chunks
  settle xs ys Chunk.isInsert (4 * moveBound settled + 4) [] settled

end Move

end Diff

end MarkupRepair
