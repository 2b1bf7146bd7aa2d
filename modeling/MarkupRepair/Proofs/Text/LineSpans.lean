import Mathlib.Data.List.Basic
import MarkupRepair.Proofs.Text.Lines

/-!
# Offsets and positions of a text, one to one

The spans of the lines tile a text: each line begins behind the line feed that ends the one before
it, the first with the text, and the last ends with it. So an offset up to the end of the text lies
in one span only, a line feed counted with the line that it ends, and its position is the line of
that span and the column in it. The two maps of a line index undo each other, also inside of a
character, and there is no offset for a position that is on no line.
-/

namespace MarkupRepair

namespace LineIndex

/-- Whether spans are those of the lines of a text that begins at an offset. -/
inductive TiledBy : Nat → Text → List Span → Prop where
  /-- A text without a line feed is one line. -/
  | last {offset : Nat} {line : Text} (h : '\n' ∉ line) :
      TiledBy offset line [⟨offset, offset + Text.size line⟩]
  /-- Behind a line and its line feed the next line begins. -/
  | next {offset : Nat} {line rest : Text} {spans : List Span} (h : '\n' ∉ line)
      (hrest : TiledBy (offset + Text.size line + 1) rest spans) :
      TiledBy offset (line ++ '\n' :: rest) (⟨offset, offset + Text.size line⟩ :: spans)

section Tiling

variable {offset place : Nat} {t : Text} {spans : List Span}

/-- The spans of the lines follow one another from the start of a text to its end. -/
theorem exists_tiledBy (offset : Nat) (t : Text) : ∃ spans, TiledBy offset t spans ∧ ∀ n,
    lineSpan? ⟨offset :: startsAfter offset t, offset + Text.size t⟩ (n + 1) = spans[n]? := by
  induction hn : t.length using Nat.strongRecOn generalizing offset t with
  | ind n ih =>
      subst hn
      by_cases hfeed : '\n' ∈ t
      · obtain ⟨line, rest, rfl, hline⟩ := List.eq_append_cons_of_mem hfeed
        obtain ⟨spans, htiled, hspans⟩ :=
          ih rest.length (by simp; omega) (offset + Text.size line + 1) rest rfl
        have hone : '\n'.utf8Size = 1 := rfl
        have hstarts : startsAfter offset (line ++ '\n' :: rest) =
            (offset + Text.size line + 1) :: startsAfter (offset + Text.size line + 1) rest := by
          rw [startsAfter_append, startsAfter_eq_nil hline, List.nil_append, startsAfter,
            if_pos rfl, hone]
        have hsize : offset + Text.size (line ++ '\n' :: rest) =
            offset + Text.size line + 1 + Text.size rest := by
          rw [Text.size_append, Text.size_cons, hone]
          omega
        refine ⟨_, .next hline htiled, fun n => ?_⟩
        rw [hstarts, hsize]
        cases n with
        | zero => simp [lineSpan?]
        | succ n => exact hspans n
      · refine ⟨_, .last hfeed, fun n => ?_⟩
        rw [startsAfter_eq_nil hfeed]
        cases n with
        | zero => rfl
        | succ n => rfl

/-- An offset of the text lies in the span of a line, or on the line feed that ends it. -/
theorem TiledBy.exists_span (h : TiledBy offset t spans) (hle : offset ≤ place)
    (hsize : place ≤ offset + Text.size t) :
    ∃ (n : Nat) (span : Span), spans[n]? = some span ∧ span.start ≤ place ∧ place ≤ span.stop := by
  induction h with
  | last _ => exact ⟨0, _, rfl, hle, hsize⟩
  | @next offset line rest spans _ _ ih =>
      by_cases hline : place ≤ offset + Text.size line
      · exact ⟨0, _, rfl, hle, hline⟩
      · have hone : '\n'.utf8Size = 1 := rfl
        rw [Text.size_append, Text.size_cons, hone] at hsize
        obtain ⟨n, span, hspan, hplace⟩ := ih (by omega) (by omega)
        exact ⟨n + 1, span, hspan, hplace⟩

end Tiling

/-- Lines start one after another. -/
theorem pairwise_starts (offset : Nat) (t : Text) :
    (offset :: startsAfter offset t).Pairwise (· < ·) := by
  induction t generalizing offset with
  | nil => exact List.pairwise_singleton _ _
  | cons c r ih =>
      refine List.pairwise_cons.mpr ⟨fun n hn => (bounds_of_mem_startsAfter hn).1, ?_⟩
      rw [startsAfter]
      split
      next => exact ih _
      next => exact (List.pairwise_cons.mp (ih _)).2

section Position

variable {x : LineIndex} {line offset : Nat} {span : Span} {p : Position}

/-- An offset in the span of a line has that line and the column that it is in. -/
theorem position_of_lineSpan? (hordered : x.starts.Pairwise (· < ·))
    (h : x.lineSpan? line = some span) (hstart : span.start ≤ offset) (hstop : offset ≤ span.stop) :
    x.position offset = ⟨line, offset - span.start + 1⟩ := by
  cases line with
  | zero => cases h
  | succ n =>
      obtain ⟨start, hget, rfl⟩ := Option.map_eq_some_iff.mp h
      obtain ⟨hn, rfl⟩ := List.getElem?_eq_some_iff.mp hget
      have hstarts : x.starts = x.starts.take n ++ x.starts[n] :: x.starts.drop (n + 1) := by
        rw [← List.drop_eq_getElem_cons hn, List.take_append_drop]
      have hnext : (x.starts.drop (n + 1))[0]? = x.starts[n + 1]? := List.getElem?_drop
      have hparts := hordered
      rw [hstarts, List.pairwise_append, List.pairwise_cons] at hparts
      obtain ⟨-, ⟨hafter, hlater⟩, hearlier⟩ := hparts
      have hposition : x.position offset =
          ⟨(x.starts.take n).length + 1, offset - x.starts[n] + 1⟩ := by
        refine position_eq hstarts (fun m hm => ?_) hstart fun m hm => ?_
        · exact Nat.le_trans (Nat.le_of_lt (hearlier m hm _ List.mem_cons_self)) hstart
        · cases hdrop : x.starts.drop (n + 1) with
          | nil =>
              rw [hdrop] at hm
              cases hm
          | cons next later =>
              rw [hdrop] at hm hnext hafter hlater
              have hstop : offset ≤ next - 1 := by
                simpa [← hnext] using hstop
              have hfirst := hafter next List.mem_cons_self
              rcases List.mem_cons.mp hm with rfl | hm
              · omega
              · have := (List.pairwise_cons.mp hlater).1 m hm
                omega
      rw [hposition, List.length_take, Nat.min_eq_left (Nat.le_of_lt hn)]

/-- What `offset?` gives lies in the span of the line, as many bytes on as the column says. -/
theorem offset?_eq_some_iff : x.offset? p = some offset ↔ ∃ span, x.lineSpan? p.line = some span ∧
    span.start ≤ offset ∧ offset ≤ span.stop ∧ p.column = offset - span.start + 1 := by
  obtain ⟨line, column⟩ := p
  unfold offset?
  dsimp only
  cases x.lineSpan? line with
  | none => simp
  | some span =>
      cases column with
      | zero => simp
      | succ column =>
          rw [Option.ite_none_right_eq_some, Option.some.injEq]
          constructor
          · rintro ⟨hle, rfl⟩
            exact ⟨span, rfl, by omega, hle, by omega⟩
          · rintro ⟨_, hspan, hstart, hstop, hcolumn⟩
            obtain rfl := Option.some.inj hspan
            omega

/-- The lines are counted from one. -/
theorem lineSpan?_eq_none_iff : x.lineSpan? line = none ↔ line = 0 ∨ x.lineCount < line := by
  cases line with
  | zero => simp [lineSpan?]
  | succ n =>
      rw [lineSpan?, Option.map_eq_none_iff, List.getElem?_eq_none_iff, lineCount]
      omega

/-- There is no offset for a position on no line, in no column or too far behind its line. -/
theorem offset?_eq_none_iff : x.offset? p = none ↔ p.line = 0 ∨ p.column = 0 ∨
    x.lineCount < p.line ∨
      ∃ span, x.lineSpan? p.line = some span ∧ span.stop + 1 < span.start + p.column := by
  have hlines : x.lineSpan? p.line = none ↔ p.line = 0 ∨ x.lineCount < p.line :=
    lineSpan?_eq_none_iff
  obtain ⟨line, column⟩ := p
  unfold offset?
  dsimp only at hlines ⊢
  cases hspan : x.lineSpan? line with
  | none =>
      have hnone := hlines.mp hspan
      simp only [reduceCtorEq, false_and, exists_false, or_false, true_iff]
      tauto
  | some span =>
      rw [hspan] at hlines
      have hsome : ¬ (line = 0 ∨ x.lineCount < line) := fun h => by simpa using hlines.mpr h
      rw [not_or] at hsome
      cases column with
      | zero => simp
      | succ column =>
          simp [hsome]
          omega

end Position

section OfText

variable {t : Text} {offset : Nat} {p : Position}

/-- The line index leads from the position of an offset back to the offset. -/
theorem offset?_position (h : offset ≤ Text.size t) :
    (ofText t).offset? ((ofText t).position offset) = some offset := by
  obtain ⟨spans, htiled, hspans⟩ := exists_tiledBy 0 t
  rw [Nat.zero_add] at hspans
  obtain ⟨n, span, hspan, hstart, hstop⟩ :=
    htiled.exists_span (Nat.zero_le offset) (by rwa [Nat.zero_add])
  have hline : (ofText t).lineSpan? (n + 1) = some span := (hspans n).trans hspan
  rw [position_of_lineSpan? (pairwise_starts 0 t) hline hstart hstop, offset?_eq_some_iff]
  exact ⟨span, hline, hstart, hstop, rfl⟩

/-- The line index leads from the offset of a position back to the position. -/
theorem position_of_offset? (h : (ofText t).offset? p = some offset) :
    (ofText t).position offset = p := by
  obtain ⟨span, hline, hstart, hstop, hcolumn⟩ := offset?_eq_some_iff.mp h
  rw [position_of_lineSpan? (pairwise_starts 0 t) hline hstart hstop, ← hcolumn]

end OfText

/-- The two maps of the line index of a text undo each other: `offset?` gives every offset up to the
end of the text back from its position, and `position` gives a position back from its offset. The
spans of the lines tile the text, a line feed standing between each and the next, there is one line
more than there are line feeds, and exactly the positions on no line, in no column and more than one
column past the end of their line have no offset. -/
theorem ofText_exact (t : Text) :
    (∀ offset ≤ Text.size t, (ofText t).offset? ((ofText t).position offset) = some offset) ∧
    (∀ p offset, (ofText t).offset? p = some offset → (ofText t).position offset = p) ∧
    (∃ spans, TiledBy 0 t spans ∧ (ofText t).lineSpan? 0 = none ∧
      ∀ n, (ofText t).lineSpan? (n + 1) = spans[n]?) ∧
    (ofText t).lineCount = t.count '\n' + 1 ∧
    ∀ p, (ofText t).offset? p = none ↔ p.line = 0 ∨ p.column = 0 ∨ (ofText t).lineCount < p.line ∨
      ∃ span, (ofText t).lineSpan? p.line = some span ∧
        span.stop + 1 < span.start + p.column := by
  obtain ⟨spans, htiled, hspans⟩ := exists_tiledBy 0 t
  rw [Nat.zero_add] at hspans
  exact ⟨fun offset => offset?_position, fun p offset => position_of_offset?,
    ⟨spans, htiled, rfl, hspans⟩, lineCount_ofText t, fun p => offset?_eq_none_iff⟩

/-- An offset inside of a character has a column of its own. -/
example : (ofText ['é', '\n']).position 1 = ⟨1, 2⟩ ∧
    (ofText ['é', '\n']).offset? ⟨1, 2⟩ = some 1 := by
  decide

end LineIndex

end MarkupRepair
