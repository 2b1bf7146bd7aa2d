import MarkupRepair.Proofs.Markup.Sections
import MarkupRepair.Proofs.Text.Lines

/-!
# The shape of a text

The shape of a text is what is left of it when nothing is known of its sections but how long they
are and where in them lines end. It has the masked text in it: a section is masked by blanks and
line feeds, and these are known from its length and its line feeds. Masking keeps the line feeds, so
the masked text has the line index of the text.
-/

namespace MarkupRepair

section Feeds

theorem LineIndex.startsAfter_maskChar (offset : Nat) (c : Char) (m : Mark) :
    startsAfter offset (maskChar c m) = startsAfter offset [c] := by
  have hblanks : c ≠ '\n' →
      startsAfter offset (List.replicate c.utf8Size ' ') = startsAfter offset [c] := by
    intro hc
    rw [startsAfter_eq_nil (by simp), startsAfter_eq_nil (by simpa using hc.symm)]
  cases m with
  | plain => rfl
  | opens | within =>
      simp only [maskChar]
      split
      next hc => rw [hc]
      next hc => exact hblanks hc

/-- Masking keeps the lines. -/
theorem LineIndex.startsAfter_masked (offset : Nat) (marked : List (Char × Mark)) :
    startsAfter offset (marked.map fun p => maskChar p.1 p.2).flatten =
      startsAfter offset (marked.map (·.1)) := by
  induction marked generalizing offset with
  | nil => rfl
  | cons p marked ih =>
      have hstep := startsAfter_append offset [p.1] (marked.map (·.1))
      rw [List.map_cons, List.flatten_cons, startsAfter_append, startsAfter_maskChar,
        size_maskChar, ih, List.map_cons]
      simpa using hstep.symm

/-- The masked text has the line index of the text. -/
theorem LineIndex.ofText_mask (t : Text) : ofText (mask t) = ofText t := by
  have hstarts : startsAfter 0 (mask t) = startsAfter 0 t := by
    rw [mask, startsAfter_masked, List.map_fst_zip (by simp [marks])]
  rw [ofText, ofText, hstarts, size_mask]

/-- Blanks and line feeds are known from their number and from where lines start. -/
theorem eq_of_startsAfter_eq {offset : Nat} {v w : Text} (hv : ∀ c ∈ v, c = ' ' ∨ c = '\n')
    (hw : ∀ c ∈ w, c = ' ' ∨ c = '\n') (hsize : Text.size v = Text.size w)
    (hstarts : LineIndex.startsAfter offset v = LineIndex.startsAfter offset w) : v = w := by
  have hone : ' '.utf8Size = 1 := rfl
  have hfeed : '\n'.utf8Size = 1 := rfl
  induction v generalizing offset w with
  | nil => exact (Text.eq_nil_of_size_eq_zero hsize.symm).symm
  | cons c v ih =>
      cases w with
      | nil => exact Text.eq_nil_of_size_eq_zero hsize
      | cons d w =>
          rw [List.forall_mem_cons] at hv hw
          have hlater : ∀ r : Text, offset + 1 ∉ LineIndex.startsAfter (offset + 1) r := by
            intro r hmem
            have hbounds := LineIndex.bounds_of_mem_startsAfter hmem
            omega
          rw [Text.size_cons, Text.size_cons] at hsize
          rcases hv.1 with rfl | rfl <;> rcases hw.1 with rfl | rfl
          · rw [ih hv.2 hw.2 (by omega) hstarts]
          · have hmem : offset + 1 ∈ LineIndex.startsAfter (offset + 1) v :=
              hstarts ▸ List.mem_cons_self
            exact absurd hmem (hlater v)
          · have hmem : offset + 1 ∈ LineIndex.startsAfter (offset + 1) w :=
              hstarts ▸ List.mem_cons_self
            exact absurd hmem (hlater w)
          · rw [ih hv.2 hw.2 (by omega) (List.cons.inj hstarts).2]

end Feeds

namespace Segment

/-- What is known of a segment: a plain character as it is, and of a section its size and where
lines start in it. -/
inductive Shape where
  | plain (c : Char)
  | hidden (size : Nat) (starts : List Nat)
  deriving DecidableEq, Repr

/-- The shape of a segment. -/
def shape : Segment → Shape
  | plain c => .plain c
  | hidden s => .hidden (Text.size s) (LineIndex.startsAfter 0 s)

/-- The segments that marked characters make up. -/
def ofMarked : List (Char × Mark) → List Segment
  | [] => []
  | (c, .plain) :: r => plain c :: ofMarked r
  | (c, .opens) :: r => hidden (c :: (r.takeWhile (·.2 == .within)).map (·.1)) :: ofMarked r
  | (_, .within) :: r => ofMarked r

variable {segments l r : List Segment}

theorem ofMarked_map_within (r : Text) (later : List (Char × Mark)) :
    ofMarked (r.map (·, Mark.within) ++ later) = ofMarked later := by
  induction r with
  | nil => rfl
  | cons c r ih => exact ih

/-- A text is cut into segments in one way only. -/
theorem WellCut.ofMarked_eq (h : WellCut segments) :
    ofMarked (segments.flatMap marked) = segments := by
  induction h with
  | nil => rfl
  | @plain c rest _ _ ih => exact congrArg (Segment.plain c :: ·) ih
  | @hidden s rest hreads hrest ih =>
      obtain ⟨r, rfl, -⟩ := exists_eq_cons_of_readsHidden hreads
      rw [List.flatMap_cons, marked_hidden_cons, List.cons_append, ofMarked,
        hrest.takeWhile_map_within, ofMarked_map_within, ih]
      simp [Function.comp_def]

/-- Segments of one shape are masked the same. -/
theorem masked_eq_of_shape_eq {s s' : Segment} (h : s.shape = s'.shape) : s.masked = s'.masked := by
  cases s with
  | plain c =>
      cases s' with
      | plain d => rw [Shape.plain.inj h]
      | hidden s' => cases h
  | hidden s =>
      cases s' with
      | plain d => cases h
      | hidden s' =>
          obtain ⟨hsize, hstarts⟩ := Shape.hidden.inj h
          have hkept : ∀ w : Text, Text.size (hidden w).masked = Text.size w ∧
              LineIndex.startsAfter 0 (hidden w).masked = LineIndex.startsAfter 0 w := by
            intro w
            have hmasked := LineIndex.startsAfter_masked 0 (w.map (·, Mark.within))
            simp only [List.map_map, Function.comp_def, List.map_id'] at hmasked
            have hall := size_maskedAll [hidden w]
            simp only [maskedAll, writtenAll, List.flatMap_singleton] at hall
            exact ⟨hall, hmasked⟩
          have hsizes : Text.size (hidden s).masked = Text.size (hidden s').masked := by
            rw [(hkept s).1, (hkept s').1, hsize]
          have hlines : LineIndex.startsAfter 0 (hidden s).masked =
              LineIndex.startsAfter 0 (hidden s').masked := by
            rw [(hkept s).2, (hkept s').2, hstarts]
          exact eq_of_startsAfter_eq (fun c hc => eq_of_mem_flatMap_maskChar hc)
            (fun c hc => eq_of_mem_flatMap_maskChar hc) hsizes hlines

theorem maskedAll_eq_of_map_shape_eq (h : l.map shape = r.map shape) :
    maskedAll l = maskedAll r := by
  induction l generalizing r with
  | nil =>
      obtain rfl := List.map_eq_nil_iff.mp h.symm
      rfl
  | cons s l ih =>
      obtain ⟨s', r', rfl, hs, hr⟩ := List.map_eq_cons_iff.mp h.symm
      have hmasked : s.masked ++ maskedAll l = s'.masked ++ maskedAll r' := by
        rw [masked_eq_of_shape_eq hs.symm, ih hr.symm]
      exact hmasked

end Segment

/-- The shape of a text: its characters outside of sections, and the size and the lines of each
section. -/
def Text.shape (t : Text) : List Segment.Shape :=
  (Segment.ofMarked (t.zip (marks t))).map Segment.shape

/-- The shape of a text is that of its segments. -/
theorem Segment.WellCut.shape_eq {segments : List Segment} (h : WellCut segments) :
    (writtenAll segments).shape = segments.map Segment.shape := by
  rw [Text.shape, h.zip_marks, h.ofMarked_eq]

/-- Texts of one shape are masked the same. -/
theorem mask_eq_of_shape_eq {t t' : Text} (h : t.shape = t'.shape) : mask t = mask t' := by
  obtain ⟨segments, hcut, rfl, -⟩ := Segment.exists_wellCut t
  obtain ⟨segments', hcut', rfl, -⟩ := Segment.exists_wellCut t'
  rw [hcut.shape_eq, hcut'.shape_eq] at h
  rw [hcut.mask_eq, hcut'.mask_eq, Segment.maskedAll_eq_of_map_shape_eq h]

end MarkupRepair
