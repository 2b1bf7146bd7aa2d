import MarkupRepair.Diff.Chunk

/-!
# Shortest differences

A shortest way from one array to another, found by dividing it at a middle snake: the search
walks from both ends at once along the diagonals of the edit grid, keeping for every diagonal
the farthest point reached, until the two walks meet. Diagonals are tried from the highest to
the lowest, the forward walk before the backward one.
-/

namespace MarkupRepair

namespace Diff

/-- The farthest point reached on each diagonal, given by its distance from the walk's origin
along the old array. Diagonal `k` is stored at `k + middle`. -/
structure Frontier where
  /-- Place of diagonal zero. -/
  middle : Nat
  /-- The distances. -/
  reached : Array Nat
  deriving Repr

namespace Frontier

/-- A frontier with room for the diagonals that a search of `depth` rounds touches. -/
def empty (depth : Nat) : Frontier := ⟨depth + 1, Array.replicate (2 * depth + 3) 0⟩

/-- The distance on a diagonal. -/
def get (f : Frontier) (k : Int) : Nat := f.reached.getD (k + f.middle).toNat 0

/-- Record the distance on a diagonal. -/
def set (f : Frontier) (k : Int) (x : Nat) : Frontier :=
  { f with reached := f.reached.setIfInBounds (k + f.middle).toNat x }

/-- Where round `d` steps onto diagonal `k`: down from the diagonal above or right from the
diagonal below, whichever reaches farther. -/
def enter (f : Frontier) (d : Nat) (k : Int) : Nat :=
  if k = -d ∨ (k ≠ d ∧ f.get (k - 1) < f.get (k + 1)) then f.get (k + 1)
  else f.get (k - 1) + 1

end Frontier

/-- The diagonals of round `d`, from the highest to the lowest. -/
def diagonals (d : Nat) : List Int :=
  (List.range (d + 1)).map fun i : Nat => (d : Int) - 2 * (i : Int)

section Search

variable {α : Type} [BEq α] (xs ys : Array α) (old new : Run)

/-- Difference of the two lengths: the diagonal on which both walks end. -/
def skew : Int := (old.count : Int) - new.count

/-- The forward half of a round. It ends early, with the start of the snake, when it meets the
backward walk. -/
def forward (d : Nat) (back : Frontier) : List Int → Frontier → Frontier × Option (Nat × Nat)
  | [], front => (front, none)
  | k :: rest, front =>
      let x := front.enter d k
      let y := ((x : Int) - k).toNat
      let ahead :=
        if x ≤ old.count ∧ y ≤ new.count then commonFront xs ys (old.drop x) (new.drop y) else 0
      let front := front.set k (x + ahead)
      let across := k - skew old new
      if skew old new % 2 ≠ 0 ∧ across.natAbs + 1 ≤ d ∧
          old.count ≤ x + ahead + back.get (-across) then
        (front, some (x, y))
      else forward d back rest front

/-- The backward half of a round. It ends early, with the start of the snake, when it meets
the forward walk. -/
def backward (d : Nat) (front : Frontier) : List Int → Frontier → Frontier × Option (Nat × Nat)
  | [], back => (back, none)
  | k :: rest, back =>
      let x := back.enter d k
      let y := ((x : Int) - k).toNat
      let ahead :=
        if x < old.count ∧ y < new.count then
          commonBack xs ys (old.dropLast x) (new.dropLast y)
        else 0
      let back := back.set k (x + ahead)
      let across := k - skew old new
      if skew old new % 2 = 0 ∧ across.natAbs ≤ d ∧
          old.count ≤ x + ahead + front.get (-across) then
        (back, some (old.count - (x + ahead), new.count - (y + ahead)))
      else backward d front rest back

/-- Search round after round for the point at which to divide two runs. -/
def middleFrom : (rounds d : Nat) → (front back : Frontier) → Nat × Nat
  | 0, _, _, _ => (0, 0)
  | rounds + 1, d, front, back =>
      match forward xs ys old new d back (diagonals d) front with
      | (_, some point) => point
      | (front, none) =>
          match backward xs ys old new d front (diagonals d) back with
          | (_, some point) => point
          | (back, none) => middleFrom rounds (d + 1) front back

/-- The point at which to divide two runs. -/
def middle : Nat × Nat :=
  let rounds := (old.count + new.count + 1) / 2 + 1
  middleFrom xs ys old new rounds 0 (.empty rounds) (.empty rounds)

end Search

/-- The chunks between two runs, found by dividing at most `fuel` times in a row. -/
def chunksWithin {α : Type} [BEq α] (xs ys : Array α) : (fuel : Nat) → Run → Run → List Chunk
  | 0, _, _ => []
  | fuel + 1, old, new =>
      let front := commonFront xs ys old new
      let old' := old.drop front
      let new' := new.drop front
      let back := commonBack xs ys old' new'
      let oldMiddle := old'.dropLast back
      let newMiddle := new'.dropLast back
      let inner :=
        if oldMiddle.count = 0 then
          if newMiddle.count = 0 then [] else [.insert newMiddle]
        else if newMiddle.count = 0 then [.delete oldMiddle]
        else
          let (x, y) := middle xs ys oldMiddle newMiddle
          chunksWithin xs ys fuel (oldMiddle.take x) (newMiddle.take y) ++
            chunksWithin xs ys fuel (oldMiddle.drop x) (newMiddle.drop y)
      (if front = 0 then [] else [.keep (old.take front) (new.take front)]) ++ inner ++
        (if back = 0 then [] else [.keep (old'.takeLast back) (new'.takeLast back)])

/-- A shortest way from one array to another. -/
def chunks {α : Type} [BEq α] (xs ys : Array α) : List Chunk :=
  chunksWithin xs ys (xs.size + ys.size + 1) ⟨0, xs.size⟩ ⟨0, ys.size⟩

end Diff

end MarkupRepair
