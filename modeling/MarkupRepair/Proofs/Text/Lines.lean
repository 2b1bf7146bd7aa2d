import Mathlib.Data.List.Induction
import MarkupRepair.Proofs.Text.Parts
import MarkupRepair.Text.LineIndex

/-!
# Positions after a beginning of a text

The position at the end of a beginning of a text is read off that beginning alone, character by
character. The line index gives every offset this position and, for this position, the offset
again, whatever comes after the beginning.
-/

namespace MarkupRepair

/-- The position after one more character. -/
def Position.advance (p : Position) (c : Char) : Position :=
  if c = '\n' then ⟨p.line + 1, 1⟩ else ⟨p.line, p.column + c.utf8Size⟩

/-- The position at the end of a text. -/
def Text.endPosition (t : Text) : Position := t.foldl Position.advance ⟨1, 1⟩

namespace Text

theorem endPosition_append (a b : Text) :
    endPosition (a ++ b) = b.foldl Position.advance (endPosition a) :=
  List.foldl_append

/-- Further characters of a line only move the column. -/
theorem endPosition_append_of_not_mem {a b : Text} (h : '\n' ∉ b) :
    endPosition (a ++ b) = ⟨(endPosition a).line, (endPosition a).column + size b⟩ := by
  rw [endPosition_append]
  generalize endPosition a = p
  induction b generalizing p with
  | nil => rfl
  | cons c r ih =>
      rw [List.mem_cons, not_or] at h
      rw [List.foldl_cons, ih h.2, Position.advance, if_neg (Ne.symm h.1)]
      simp only [size_cons, Nat.add_assoc]

/-- A line feed moves on to a later line. -/
theorem line_lt_endPosition_append {a b : Text} (h : '\n' ∈ b) :
    (endPosition a).line < (endPosition (a ++ b)).line := by
  have hle : ∀ (t : Text) (p : Position), p.line ≤ (t.foldl Position.advance p).line := by
    intro t
    induction t with
    | nil => exact fun p => Nat.le_refl _
    | cons c r ih =>
        intro p
        refine Nat.le_trans ?_ (ih (p.advance c))
        unfold Position.advance
        split
        · exact Nat.le_succ _
        · exact Nat.le_refl _
  obtain ⟨u, v, rfl⟩ := List.append_of_mem h
  rw [endPosition_append, List.foldl_append, List.foldl_cons]
  have hu := hle u (endPosition a)
  have hv := hle v ((u.foldl Position.advance (endPosition a)).advance '\n')
  have hnext : ((u.foldl Position.advance (endPosition a)).advance '\n').line =
      (u.foldl Position.advance (endPosition a)).line + 1 := rfl
  omega

end Text

namespace LineIndex

theorem startsAfter_append (offset : Nat) (a b : Text) :
    startsAfter offset (a ++ b) = startsAfter offset a ++ startsAfter (offset + Text.size a) b := by
  induction a generalizing offset with
  | nil => simp [startsAfter]
  | cons c r ih =>
      simp only [List.cons_append, startsAfter, ih, Text.size_cons, Nat.add_assoc]
      split <;> simp

/-- Text without line feeds starts no line. -/
theorem startsAfter_eq_nil {w : Text} (h : '\n' ∉ w) (offset : Nat) :
    startsAfter offset w = [] := by
  induction w generalizing offset with
  | nil => rfl
  | cons c w ih =>
      rw [List.mem_cons, not_or] at h
      rw [startsAfter, if_neg (Ne.symm h.1), ih h.2]

/-- A line starts after the text before it and within the text that it is found in. -/
theorem bounds_of_mem_startsAfter {offset n : Nat} {t : Text} (h : n ∈ startsAfter offset t) :
    offset < n ∧ n ≤ offset + Text.size t := by
  induction t generalizing offset with
  | nil => cases h
  | cons c r ih =>
      have hpos := c.utf8Size_pos
      simp only [startsAfter] at h
      rw [Text.size_cons]
      split at h
      next =>
        rcases List.mem_cons.mp h with rfl | h
        · omega
        · have := ih h
          omega
      next =>
        have := ih h
        omega

/-- The position at the end of a text tells how many lines start in it and where the last one
does. -/
theorem exists_lineStart (t : Text) :
    ∃ earlier start, 0 :: startsAfter 0 t = earlier ++ [start] ∧ start ≤ Text.size t ∧
      Text.endPosition t = ⟨earlier.length + 1, Text.size t - start + 1⟩ := by
  induction t using List.reverseRecOn with
  | nil => exact ⟨[], 0, rfl, Nat.le_refl _, rfl⟩
  | append_singleton t c ih =>
      obtain ⟨earlier, start, hstarts, hle, hend⟩ := ih
      have hstep : Text.endPosition (t ++ [c]) = (Text.endPosition t).advance c := by
        rw [Text.endPosition, List.foldl_append]
        rfl
      rw [startsAfter_append, ← List.cons_append, hstarts, hstep, hend]
      by_cases hc : c = '\n'
      · refine ⟨earlier ++ [start], Text.size t + c.utf8Size, ?_, ?_, ?_⟩
        · simp [startsAfter, hc]
        · simp
        · simp [Position.advance, hc]
      · refine ⟨earlier, start, ?_, ?_, ?_⟩
        · simp [startsAfter, hc]
        · simp only [Text.size_append]
          omega
        · simp only [Position.advance, hc, if_false, Text.size_append, Text.size_cons,
            Text.size_nil, Position.mk.injEq, true_and]
          omega

/-- The line starts of a text up to the end of a beginning of it, and those after it. -/
theorem exists_starts_ofText_append (before after : Text) :
    ∃ earlier start later, (ofText (before ++ after)).starts = earlier ++ start :: later ∧
      (∀ n ∈ earlier, n ≤ Text.size before) ∧ start ≤ Text.size before ∧
      (∀ n ∈ later, Text.size before < n ∧ n ≤ Text.size (before ++ after)) ∧
      Text.endPosition before = ⟨earlier.length + 1, Text.size before - start + 1⟩ := by
  obtain ⟨earlier, start, hstarts, hle, hend⟩ := exists_lineStart before
  refine ⟨earlier, start, startsAfter (Text.size before) after, ?_, ?_, hle, ?_, hend⟩
  · rw [ofText, startsAfter_append, ← List.cons_append, hstarts, Nat.zero_add, List.append_assoc,
      List.singleton_append]
  · intro n hn
    have hmem : n ∈ 0 :: startsAfter 0 before := by
      rw [hstarts]
      exact List.mem_append_left _ hn
    rcases List.mem_cons.mp hmem with rfl | h
    · exact Nat.zero_le _
    · have := bounds_of_mem_startsAfter h
      omega
  · intro n hn
    have := bounds_of_mem_startsAfter hn
    rw [Text.size_append]
    omega

/-- The position of an offset counts the lines that start at or before it, and the bytes from the
last of them on. -/
theorem position_eq {x : LineIndex} {earlier later : List Nat} {start offset : Nat}
    (hstarts : x.starts = earlier ++ start :: later) (hearlier : ∀ n ∈ earlier, n ≤ offset)
    (hstart : start ≤ offset) (hlater : ∀ n ∈ later, offset < n) :
    x.position offset = ⟨earlier.length + 1, offset - start + 1⟩ := by
  have hnone : later.takeWhile (· ≤ offset) = [] := by
    cases later with
    | nil => rfl
    | cons n rest =>
        have hn := hlater n List.mem_cons_self
        rw [List.takeWhile_cons_of_neg]
        simpa using hn
  have htake : x.starts.takeWhile (· ≤ offset) = earlier ++ [start] := by
    rw [hstarts, List.takeWhile_append_of_pos (by simpa using hearlier),
      List.takeWhile_cons_of_pos (by simpa using hstart), hnone]
  have hline : max 1 (earlier ++ [start]).length = earlier.length + 1 := by
    simp
  have hget : x.starts.getD earlier.length 0 = start := by
    rw [hstarts]
    simp
  simp only [position, htake, hline, Nat.add_sub_cancel, hget]

/-- The end of a beginning of a text has the position that the beginning alone gives. -/
theorem position_ofText_append (before after : Text) :
    (ofText (before ++ after)).position (Text.size before) = Text.endPosition before := by
  obtain ⟨earlier, start, later, hstarts, hearlier, hstart, hlater, hend⟩ :=
    exists_starts_ofText_append before after
  rw [hend]
  exact position_eq hstarts hearlier hstart fun n hn => (hlater n hn).1

/-- The position that a beginning of a text gives leads back to its end. -/
theorem offset?_endPosition (before after : Text) :
    (ofText (before ++ after)).offset? (Text.endPosition before) = some (Text.size before) := by
  obtain ⟨earlier, start, later, hstarts, hearlier, hstart, hlater, hend⟩ :=
    exists_starts_ofText_append before after
  have hspan : ∃ stop, (ofText (before ++ after)).lineSpan? (earlier.length + 1) =
      some ⟨start, stop⟩ ∧ Text.size before ≤ stop := by
    cases later with
    | nil =>
        refine ⟨Text.size (before ++ after), ?_, ?_⟩
        · have hsize : (ofText (before ++ after)).size = Text.size (before ++ after) := rfl
          simp [lineSpan?, hstarts, hsize]
        · simp
    | cons n rest =>
        have hn := (hlater n List.mem_cons_self).1
        refine ⟨n - 1, ?_, ?_⟩
        · simp [lineSpan?, hstarts]
        · omega
  obtain ⟨stop, hspan, hstop⟩ := hspan
  have hle : start + (Text.size before - start) ≤ stop := by
    omega
  simp only [offset?, hend, hspan, hle, if_true]
  congr 1
  omega

/-- A place of a text is known by its position. -/
theorem eq_of_endPosition_eq {a b a' b' : Text} (h : a ++ b = a' ++ b')
    (hposition : Text.endPosition a = Text.endPosition a') : a = a' := by
  have hoffset := offset?_endPosition a b
  rw [hposition, h, offset?_endPosition] at hoffset
  exact (Text.append_inj_of_size h (Option.some.inj hoffset).symm).1

end LineIndex

end MarkupRepair
