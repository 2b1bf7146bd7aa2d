import Mathlib.Data.List.Forall2
import Mathlib.Data.List.Induction
import MarkupRepair.Repair.Wildcard

/-!
# The texts that a wildcard pattern matches

A pattern matches a text exactly when the text can be cut into pieces, one for every byte of the
pattern: any bytes for `*`, a single byte for `?`, and the byte itself for every other one. The row
that the matcher keeps tells, after every byte of the pattern, which beginnings of the text can be
cut for the bytes read so far.
-/

namespace MarkupRepair

namespace Wildcard

/-- The pieces of a text that a byte of a pattern stands for. -/
inductive Stands : UInt8 → List UInt8 → Prop where
  /-- `*` stands for any bytes, also for none. -/
  | any (piece : List UInt8) : Stands star piece
  /-- `?` stands for any single byte. -/
  | single (c : UInt8) : Stands question [c]
  /-- Every other byte stands for itself. -/
  | itself {p : UInt8} (hstar : p ≠ star) (hquestion : p ≠ question) : Stands p [p]

/-- Whether a text can be cut into pieces for which the bytes of a pattern stand, one by one. -/
def Cuts (pattern text : List UInt8) : Prop :=
  ∃ pieces : List (List UInt8), pieces.flatten = text ∧ List.Forall₂ Stands pattern pieces

variable {pattern text piece : List UInt8} {row : List Bool} {p : UInt8}

/-- A byte other than `*` stands for a single byte. -/
theorem stands_iff_of_ne_star (hp : p ≠ star) :
    Stands p piece ↔ ∃ c, piece = [c] ∧ (p = question ∨ p = c) := by
  constructor
  · intro h
    cases h with
    | any piece => exact absurd rfl hp
    | single c => exact ⟨c, rfl, .inl rfl⟩
    | itself hstar hquestion => exact ⟨p, rfl, .inr rfl⟩
  · rintro ⟨c, rfl, hc⟩
    by_cases hquestion : p = question
    · exact hquestion ▸ .single c
    · exact hc.resolve_left hquestion ▸ .itself hp hquestion

@[simp] theorem cuts_nil_iff : Cuts [] text ↔ text = [] := by
  simp [Cuts, eq_comm]

/-- The last byte of a pattern stands for the end of the text. -/
theorem cuts_concat_iff : Cuts (pattern ++ [p]) text ↔
    ∃ front piece, text = front ++ piece ∧ Cuts pattern front ∧ Stands p piece := by
  constructor
  · rintro ⟨pieces, rfl, hpieces⟩
    have hreversed : List.Forall₂ Stands (p :: pattern.reverse) pieces.reverse := by
      simpa using List.forall₂_reverse_iff.mpr hpieces
    obtain ⟨piece, fronts, hpiece, hfronts, heq⟩ := List.forall₂_cons_left_iff.mp hreversed
    obtain rfl : pieces = fronts.reverse ++ [piece] := by
      simpa using congrArg List.reverse heq
    exact ⟨fronts.reverse.flatten, piece, by simp,
      ⟨fronts.reverse, rfl, by simpa using List.forall₂_reverse_iff.mpr hfronts⟩, hpiece⟩
  · rintro ⟨front, piece, rfl, ⟨pieces, rfl, hpieces⟩, hpiece⟩
    exact ⟨pieces ++ [piece], by simp, List.rel_append hpieces (.cons hpiece .nil)⟩

/-- With a `*` at its end a pattern matches a text when it matches some beginning of it. -/
theorem cuts_concat_star_iff {n : Nat} : Cuts (pattern ++ [star]) (text.take n) ↔
    ∃ i ≤ n, Cuts pattern (text.take i) := by
  rw [cuts_concat_iff]
  constructor
  · rintro ⟨front, piece, heq, hfront, -⟩
    obtain ⟨hbegins, hle⟩ := List.prefix_take_iff.mp ⟨piece, heq.symm⟩
    exact ⟨front.length, hle, List.prefix_iff_eq_take.mp hbegins ▸ hfront⟩
  · rintro ⟨i, hi, hcuts⟩
    refine ⟨text.take i, (text.take n).drop i, ?_, hcuts, .any _⟩
    have hsplit := List.take_append_drop i (text.take n)
    rw [List.take_take, Nat.min_eq_left hi] at hsplit
    exact hsplit.symm

/-- A byte other than `*` at the end of a pattern stands for the last byte of the text. -/
theorem cuts_concat_snoc_iff (hp : p ≠ star) {c : UInt8} :
    Cuts (pattern ++ [p]) (text ++ [c]) ↔ Cuts pattern text ∧ (p = question ∨ p = c) := by
  rw [cuts_concat_iff]
  constructor
  · rintro ⟨front, piece, heq, hfront, hpiece⟩
    obtain ⟨d, rfl, hd⟩ := (stands_iff_of_ne_star hp).mp hpiece
    obtain ⟨rfl, hlast⟩ := List.append_inj' heq rfl
    obtain rfl := (List.cons.inj hlast).1
    exact ⟨hfront, hd⟩
  · rintro ⟨hcuts, hc⟩
    exact ⟨text, [c], rfl, hcuts, (stands_iff_of_ne_star hp).mpr ⟨c, rfl, hc⟩⟩

/-- The empty text has no byte for such a byte. -/
theorem not_cuts_concat_nil (hp : p ≠ star) : ¬ Cuts (pattern ++ [p]) [] := by
  rw [cuts_concat_iff]
  rintro ⟨front, piece, heq, -, hpiece⟩
  obtain ⟨c, rfl, -⟩ := (stands_iff_of_ne_star hp).mp hpiece
  simp at heq

section Rows

theorem length_anyUpTo (seen : Bool) (row : List Bool) :
    (anyUpTo seen row).length = row.length := by
  induction row generalizing seen with
  | nil => rfl
  | cons b r ih => rw [anyUpTo, List.length_cons, List.length_cons, ih]

/-- A place holds when one at or before it did. -/
theorem getElem?_anyUpTo_iff {seen : Bool} {n : Nat} (hn : n < row.length) :
    (anyUpTo seen row)[n]? = some true ↔ seen = true ∨ ∃ i ≤ n, row[i]? = some true := by
  induction row generalizing seen n with
  | nil => cases hn
  | cons b r ih =>
      cases n with
      | zero => simp [anyUpTo]
      | succ n =>
          have hrest : (anyUpTo (seen || b) r)[n]? = some true ↔
              (seen || b) = true ∨ ∃ i ≤ n, r[i]? = some true := ih (Nat.lt_of_succ_lt_succ hn)
          rw [anyUpTo, List.getElem?_cons_succ, hrest, Bool.or_eq_true, or_assoc]
          refine or_congr_right ?_
          constructor
          · rintro (rfl | ⟨i, hi, hplace⟩)
            · exact ⟨0, Nat.zero_le _, rfl⟩
            · exact ⟨i + 1, Nat.succ_le_succ hi, hplace⟩
          · rintro ⟨i, hi, hplace⟩
            cases i with
            | zero => exact .inl (Option.some.inj hplace)
            | succ i => exact .inr ⟨i, Nat.le_of_succ_le_succ hi, hplace⟩

/-- Whether a row tells which beginnings of a text a pattern matches. -/
structure Tells (pattern text : List UInt8) (row : List Bool) : Prop where
  /-- There is a place for every beginning, the empty one and the whole text among them. -/
  length : row.length = text.length + 1
  /-- The place of a beginning holds when the beginning can be cut for the pattern. -/
  holds : ∀ n ≤ text.length, row[n]? = some true ↔ Cuts pattern (text.take n)

theorem tells_firstRow (text : List UInt8) : Tells [] text (firstRow text) := by
  refine ⟨by simp [firstRow], fun n hn => ?_⟩
  cases n with
  | zero => simp [firstRow]
  | succ n =>
      have hother : text.take (n + 1) ≠ [] := by
        rw [← List.length_pos_iff, List.length_take]
        omega
      simp [firstRow, hother, List.getElem?_replicate]

/-- After a `*` every place at or behind one that held holds. -/
theorem Tells.anyUpTo (h : Tells pattern text row) :
    Tells (pattern ++ [star]) text (anyUpTo false row) := by
  refine ⟨(length_anyUpTo false row).trans h.length, fun n hn => ?_⟩
  have hplace : n < row.length := by
    rw [h.length]
    omega
  rw [getElem?_anyUpTo_iff hplace, cuts_concat_star_iff]
  simp only [Bool.false_eq_true, false_or]
  exact exists_congr fun i => and_congr_right fun hi => h.holds i (Nat.le_trans hi hn)

/-- After any other byte a place holds when the one in front of it held and the byte stands for the
byte between the two. -/
theorem Tells.zipWith (h : Tells pattern text row) (hp : p ≠ star) : Tells (pattern ++ [p]) text
    (false :: List.zipWith (fun matched c => matched && (p == question || p == c)) row text) := by
  refine ⟨by simp [h.length], fun n hn => ?_⟩
  cases n with
  | zero => simpa using not_cuts_concat_nil hp
  | succ n =>
      have htake : text.take (n + 1) = text.take n ++ [text[n]] :=
        List.take_succ_eq_append_getElem hn
      rw [htake, cuts_concat_snoc_iff hp, ← h.holds n (Nat.le_of_succ_le hn),
        List.getElem?_cons_succ, List.getElem?_zipWith_eq_some]
      constructor
      · rintro ⟨matched, c, hmatched, hc, hboth⟩
        obtain ⟨_, rfl⟩ := List.getElem?_eq_some_iff.mp hc
        simp only [Bool.and_eq_true, Bool.or_eq_true, beq_iff_eq] at hboth
        exact ⟨hboth.1 ▸ hmatched, hboth.2⟩
      · rintro ⟨hmatched, hstands⟩
        exact ⟨true, text[n], hmatched, List.getElem?_eq_getElem hn, by simpa using hstands⟩

/-- One more byte of the pattern makes one more row. -/
theorem Tells.step (h : Tells pattern text row) (p : UInt8) :
    Tells (pattern ++ [p]) text (step text row p) := by
  unfold Wildcard.step
  split
  next hp => exact hp ▸ h.anyUpTo
  next hp => exact h.zipWith hp

/-- The rows after all bytes of the pattern. -/
theorem tells_foldl (pattern text : List UInt8) :
    Tells pattern text (pattern.foldl (step text) (firstRow text)) := by
  induction pattern using List.reverseRecOn with
  | nil => exact tells_firstRow text
  | append_singleton pattern p ih =>
      rw [List.foldl_append]
      exact ih.step p

/-- The matcher accepts the texts that can be cut for the pattern. -/
theorem accepts_iff : accepts pattern text = true ↔ Cuts pattern text := by
  have h := tells_foldl pattern text
  have hlast := h.holds text.length (Nat.le_refl _)
  rw [List.take_length] at hlast
  rw [← hlast, accepts, List.getLast?_eq_getElem?, h.length, Nat.add_sub_cancel,
    Option.getD_eq_iff]
  simp

/-- A run of stars matches the empty text too. A question mark does not. -/
example : accepts [star, star] [] = true ∧ accepts [star, question] [] = false := ⟨rfl, rfl⟩

end Rows

end Wildcard

/-- A wildcard pattern matches a text if and only if the bytes of the text can be cut into pieces,
one for every byte of the pattern, such that `*` has any piece, `?` has a piece of one byte, and
every other byte is its own piece. -/
theorem wildcardMatches_iff_exists_pieces (pattern text : String) :
    wildcardMatches pattern text = true ↔ ∃ pieces : List (List UInt8),
      pieces.flatten = stringBytes text ∧
        List.Forall₂ Wildcard.Stands (stringBytes pattern) pieces :=
  Wildcard.accepts_iff

end MarkupRepair
