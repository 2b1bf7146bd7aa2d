/-!
# Differences as chunks

Two arrays of lines are compared chunk by chunk. A chunk keeps lines that both have, deletes
lines of the old array or inserts lines of the new one; it names the lines by where they
start and how many they are.
-/

namespace MarkupRepair

namespace Diff

/-- A stretch of an array. -/
structure Run where
  /-- Index of the first element. -/
  start : Nat
  /-- Number of elements. -/
  count : Nat
  deriving DecidableEq, Repr

namespace Run

/-- Index just past the last element. -/
def stop (r : Run) : Nat := r.start + r.count

/-- The first `n` elements. -/
def take (r : Run) (n : Nat) : Run := ⟨r.start, min n r.count⟩

/-- All but the first `n` elements. -/
def drop (r : Run) (n : Nat) : Run := ⟨r.start + min n r.count, r.count - n⟩

/-- The last `n` elements. -/
def takeLast (r : Run) (n : Nat) : Run := r.drop (r.count - n)

/-- All but the last `n` elements. -/
def dropLast (r : Run) (n : Nat) : Run := r.take (r.count - n)

/-- The elements of a run. -/
def elements {α : Type} (xs : Array α) (r : Run) : List α := (xs.extract r.start r.stop).toList

end Run

/-- One step of the way from the old lines to the new ones. -/
inductive Chunk where
  /-- Lines that both have. -/
  | keep (old new : Run)
  /-- Lines that only the old array has. -/
  | delete (old : Run)
  /-- Lines that only the new array has. -/
  | insert (new : Run)
  deriving DecidableEq, Repr

namespace Chunk

/-- Number of lines of a chunk. -/
def count : Chunk → Nat
  | .keep old _ => old.count
  | .delete old => old.count
  | .insert new => new.count

end Chunk

/-- Number of elements that two lists share at their front. -/
def commonCount {α : Type} [BEq α] : List α → List α → Nat
  | a :: as, b :: bs => if a == b then commonCount as bs + 1 else 0
  | _, _ => 0

/-- Number of elements that a run of one array and a run of another share at the front. -/
def commonFront {α : Type} [BEq α] (xs ys : Array α) (r s : Run) : Nat :=
  commonCount (r.elements xs) (s.elements ys)

/-- Number of elements that a run of one array and a run of another share at the back. -/
def commonBack {α : Type} [BEq α] (xs ys : Array α) (r s : Run) : Nat :=
  commonCount (r.elements xs).reverse (s.elements ys).reverse

end Diff

end MarkupRepair
