import MarkupRepair.Storage.Script

/-!
# A store in memory

A store keeps bytes under paths, taken literally. Reading, copying or removing something that
is not there fails and changes nothing; everything else succeeds.
-/

namespace MarkupRepair

/-- Bytes under paths, each path once. -/
abbrev Memory := List (Path × ByteArray)

namespace Memory

/-- The bytes under a path. -/
def get? (m : Memory) (path : Path) : Option ByteArray := m.lookup path

/-- The store without a path. -/
def erase (m : Memory) (path : Path) : Memory := m.filter fun entry => entry.1 != path

/-- The store with bytes under a path. -/
def put (m : Memory) (path : Path) (bytes : ByteArray) : Memory := (path, bytes) :: m.erase path

/-- The failure for a path that is not there. -/
def missing (path : Path) : Failure := ⟨s!"no such file: {path}", []⟩

@[simp] theorem get?_erase (m : Memory) (p q : Path) :
    (m.erase p).get? q = if q = p then none else m.get? q := by
  unfold get? erase
  induction m with
  | nil => simp
  | cons entry rest ih =>
      obtain ⟨key, bytes⟩ := entry
      by_cases hk : key = p
      · subst hk
        simp only [bne_self_eq_false, Bool.false_eq_true, not_false_eq_true,
          List.filter_cons_of_neg, ih, List.lookup_cons]
        by_cases hq : q = key
        · simp [hq]
        · simp [hq, beq_eq_false_iff_ne.mpr hq]
      · rw [List.filter_cons_of_pos (by simpa using hk)]
        simp only [List.lookup_cons]
        by_cases hq : q = key
        · subst hq; simp [hk]
        · simp [beq_eq_false_iff_ne.mpr hq, ih]

@[simp] theorem get?_put (m : Memory) (p q : Path) (bytes : ByteArray) :
    (m.put p bytes).get? q = if q = p then some bytes else m.get? q := by
  by_cases hq : q = p
  · subst hq; simp [put, get?]
  · have h := get?_erase m p q
    simp only [hq, if_false] at h ⊢
    simpa [put, get?, List.lookup_cons, beq_eq_false_iff_ne.mpr hq] using h

theorem get?_erase_self (m : Memory) (p : Path) : (m.erase p).get? p = none := by
  rw [get?_erase, if_pos rfl]

theorem get?_erase_of_ne {p q : Path} (h : q ≠ p) (m : Memory) :
    (m.erase p).get? q = m.get? q := by
  rw [get?_erase, if_neg h]

theorem get?_put_self (m : Memory) (p : Path) (bytes : ByteArray) :
    (m.put p bytes).get? p = some bytes := by
  rw [get?_put, if_pos rfl]

theorem get?_put_of_ne {p q : Path} (h : q ≠ p) (m : Memory) (bytes : ByteArray) :
    (m.put p bytes).get? q = m.get? q := by
  rw [get?_put, if_neg h]

/-- The answers of a store in memory. There are no directories, so creating one does
nothing and looking for documents finds none, and the clock stands still. -/
def answer : (r : Request) → Memory → r.Answer × Memory
  | .read path, m =>
      match m.get? path with
      | some bytes => (.ok bytes, m)
      | none => (.error (missing path), m)
  | .write path bytes, m => (.ok (), m.put path bytes)
  | .copy source target, m =>
      match m.get? source with
      | some bytes => (.ok (), m.put target bytes)
      | none => (.error (missing source), m)
  | .remove path, m =>
      match m.get? path with
      | some _ => (.ok (), m.erase path)
      | none => (.error (missing path), m)
  | .isPresent path, m => ((m.get? path).isSome, m)
  | .claim path, m =>
      match m.get? path with
      | some _ => (.error .held, m)
      | none => (.ok (), m.put path ByteArray.empty)
  | .release path, m => ((), m.erase path)
  | .kindOf path, m => ((m.get? path).map fun _ => .file, m)
  | .list _, m => (.ok [], m)
  | .makeDirectory _, m => (.ok (), m)
  | .publish path bytes, m => (.ok (), m.put path bytes)
  | .now, m => (⟨0⟩, m)

/-- A store in memory as a host of scripts. -/
def host : Host Memory := ⟨answer⟩

end Memory

end MarkupRepair
