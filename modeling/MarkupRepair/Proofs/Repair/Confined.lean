import Mathlib.Data.List.Basic
import MarkupRepair.Markup.Scan

/-!
# Changes inside scanned tags

What may become of a scanned text when fixes change nothing but what they are meant for. The
characters of a tag after its opening bracket may be exchanged for others, a reference that is not
terminated may be completed at its end, and every other character is kept. So the text between the
tags comes out the same and in the same order, but for completed references.
-/

namespace MarkupRepair

/-- What completes a reference: the rest of an escaped ampersand, or the semicolon after a name. -/
def EntityToken.completion (e : EntityToken) : Text :=
  if e.isBare then "amp;".toList else [';']

/-- Where the name of a reference ends. -/
def EntityToken.nameEnd (e : EntityToken) : Nat := e.span.start + Text.size e.text

/-- Whether a text that stands at an offset of a scanned one becomes another by changes inside given
tags and completed references only. -/
inductive Confined (tags : List TagToken) (entities : List EntityToken) :
    Nat → Text → Text → Prop where
  /-- Nothing is put at the end. -/
  | nil (o : Nat) : Confined tags entities o [] []
  /-- A character is kept. -/
  | kept {o : Nat} (c : Char) {t w : Text} (h : Confined tags entities (o + c.utf8Size) t w) :
      Confined tags entities o (c :: t) (c :: w)
  /-- A reference is completed after its last character. -/
  | completed {o : Nat} {c : Char} {t w : Text} {e : EntityToken} (he : e ∈ entities)
      (hopen : e.terminated = false) (hend : o + c.utf8Size = e.nameEnd)
      (h : Confined tags entities (o + c.utf8Size) t w) :
      Confined tags entities o (c :: t) (c :: (e.completion ++ w))
  /-- A character of a tag after its opening bracket is exchanged; a closing bracket does not get
  lost. -/
  | inTag {o : Nat} {c : Char} {t w : Text} {tag : TagToken} (htag : tag ∈ tags)
      (hstart : tag.span.start < o) (hstop : o + c.utf8Size ≤ tag.span.stop) (v : Text)
      (hclosing : c = '>' → '>' ∈ v) (h : Confined tags entities (o + c.utf8Size) t w) :
      Confined tags entities o (c :: t) (v ++ w)

namespace Confined

variable {tags tags' : List TagToken} {entities : List EntityToken} {o : Nat}
  {a b t w wa wb x y : Text}

/-- A text may stay as it is. -/
theorem refl (o : Nat) (t : Text) : Confined tags entities o t t := by
  induction t generalizing o with
  | nil => exact nil o
  | cons c r ih => exact kept c (ih _)

theorem append (ha : Confined tags entities o a wa)
    (hb : Confined tags entities (o + Text.size a) b wb) :
    Confined tags entities o (a ++ b) (wa ++ wb) := by
  induction ha with
  | nil o => exact hb
  | kept c _ ih =>
      rw [Text.size_cons, ← Nat.add_assoc] at hb
      exact kept c (ih hb)
  | completed he hopen hend _ ih =>
      rw [Text.size_cons, ← Nat.add_assoc] at hb
      have h := completed he hopen hend (ih hb)
      rwa [← List.append_assoc] at h
  | inTag htag hstart hstop v hclosing _ ih =>
      rw [Text.size_cons, ← Nat.add_assoc] at hb
      have h := inTag htag hstart hstop v hclosing (ih hb)
      rwa [← List.append_assoc] at h

/-- More tags may be changed. -/
theorem mono (h : Confined tags entities o t w) (htags : tags ⊆ tags') :
    Confined tags' entities o t w := by
  induction h with
  | nil o => exact nil o
  | kept c _ ih => exact kept c ih
  | completed he hopen hend _ ih => exact completed he hopen hend ih
  | inTag htag hstart hstop v hclosing _ ih => exact inTag (htags htag) hstart hstop v hclosing ih

/-- What becomes of a text is what becomes of its parts. -/
theorem exists_of_append (h : Confined tags entities o (a ++ b) w) :
    ∃ wa wb, w = wa ++ wb ∧ Confined tags entities o a wa ∧
      Confined tags entities (o + Text.size a) b wb := by
  induction a generalizing o w with
  | nil => exact ⟨[], w, rfl, nil o, h⟩
  | cons c a ih =>
      rw [Text.size_cons, ← Nat.add_assoc]
      cases h with
      | kept _ h =>
          obtain ⟨wa, wb, rfl, ha, hb⟩ := ih h
          exact ⟨c :: wa, wb, rfl, kept c ha, hb⟩
      | completed he hopen hend h =>
          obtain ⟨wa, wb, rfl, ha, hb⟩ := ih h
          exact ⟨_, wb, by rw [← List.append_assoc]; rfl, completed he hopen hend ha, hb⟩
      | inTag htag hstart hstop v hclosing h =>
          obtain ⟨wa, wb, rfl, ha, hb⟩ := ih h
          exact ⟨_, wb, by rw [← List.append_assoc], inTag htag hstart hstop v hclosing ha, hb⟩

/-- Closing brackets do not get lost. -/
theorem closing_mem (h : Confined tags entities o t w) (ht : '>' ∈ t) : '>' ∈ w := by
  induction h with
  | nil => exact ht
  | kept c _ ih => exact List.mem_cons.mpr ((List.mem_cons.mp ht).imp_right ih)
  | @completed _ c _ _ e _ _ _ _ ih =>
      refine List.mem_cons.mpr ((List.mem_cons.mp ht).imp_right fun hmem => ?_)
      exact List.mem_append_right _ (ih hmem)
  | inTag _ _ _ v hclosing _ ih =>
      rcases List.mem_cons.mp ht with heq | hmem
      · exact List.mem_append_left _ (hclosing heq.symm)
      · exact List.mem_append_right _ (ih hmem)

/-- A stretch of a tag after its opening bracket may be exchanged for any text with as many closing
brackets. -/
theorem of_inTag {tag : TagToken} (htag : tag ∈ tags) (hstart : tag.span.start < o)
    (hstop : o + Text.size x ≤ tag.span.stop) (hx : x ≠ []) (hcount : x.count '>' ≤ y.count '>') :
    Confined tags entities o x y := by
  induction x generalizing o y with
  | nil => exact absurd rfl hx
  | cons c r ih =>
      rw [Text.size_cons, ← Nat.add_assoc] at hstop
      cases r with
      | nil =>
          rw [← List.append_nil y]
          refine inTag htag hstart hstop y (fun hc => ?_) (nil _)
          rw [hc, List.count_singleton_self] at hcount
          exact List.count_pos_iff.mp hcount
      | cons d r =>
          obtain ⟨v, u, rfl, hclosing, hrest⟩ : ∃ v u, y = v ++ u ∧ (c = '>' → '>' ∈ v) ∧
              (d :: r).count '>' ≤ u.count '>' := by
            by_cases hc : c = '>'
            · rw [hc, List.count_cons_self] at hcount
              obtain ⟨v, u, rfl, hv⟩ := List.eq_append_cons_of_mem
                (List.count_pos_iff.mp (Nat.lt_of_lt_of_le (Nat.succ_pos _) hcount))
              refine ⟨v ++ ['>'], u, by simp, by simp, ?_⟩
              rw [List.count_append, List.count_eq_zero.mpr hv, List.count_cons_self] at hcount
              omega
            · refine ⟨[], y, rfl, fun h => absurd h hc, ?_⟩
              rwa [List.count_cons_of_ne hc] at hcount
          have hlater := Nat.lt_of_lt_of_le hstart (Nat.le_add_right o c.utf8Size)
          exact inTag htag hstart (Nat.le_trans (Nat.le_add_right _ _) hstop) v hclosing
            (ih hlater hstop (List.cons_ne_nil d r) hrest)

/-- Text with no part of a tag in it where no open reference ends is kept. -/
theorem eq_of_apart (h : Confined tags entities o t w)
    (htags : ∀ tag ∈ tags, tag.span.stop ≤ o ∨ o + Text.size t ≤ tag.span.start)
    (hentities : ∀ e ∈ entities, e.terminated = false →
      e.nameEnd ≤ o ∨ o + Text.size t < e.nameEnd) : w = t := by
  induction h with
  | nil => rfl
  | @kept o c t w _ ih =>
      rw [Text.size_cons, ← Nat.add_assoc] at htags hentities
      rw [ih (fun tag htag => (htags tag htag).imp_left Nat.le_add_right_of_le)
        fun e he hopen => (hentities e he hopen).imp_left Nat.le_add_right_of_le]
  | @completed o c t w e he hopen hend _ _ =>
      rw [Text.size_cons, ← Nat.add_assoc] at hentities
      have hpos := c.utf8Size_pos
      have hapart := hentities e he hopen
      omega
  | @inTag o c t w tag htag hstart hstop _ _ _ _ =>
      rw [Text.size_cons, ← Nat.add_assoc] at htags
      have hpos := c.utf8Size_pos
      have hapart := htags tag htag
      omega

/-- Up to a character that no tag of the changed ones reaches, and that completes no reference,
characters that complete no reference are kept. -/
theorem filter_takeWhile_of_apart {p q : Char → Bool} (h : Confined tags entities o t w)
    (hp : ∀ e : EntityToken, ∀ c ∈ e.completion, p c = false ∧ q c = true)
    (htags : ∀ tag ∈ tags, tag.span.stop ≤ o ∨ o + Text.size (t.takeWhile q) ≤ tag.span.start) :
    (w.takeWhile q).filter p = (t.takeWhile q).filter p := by
  induction h with
  | nil => rfl
  | @kept o c t w _ ih =>
      by_cases hc : q c = true
      · rw [List.takeWhile_cons_of_pos hc, Text.size_cons, ← Nat.add_assoc] at htags
        rw [List.takeWhile_cons_of_pos hc, List.takeWhile_cons_of_pos hc, List.filter_cons,
          List.filter_cons, ih fun tag htag => (htags tag htag).imp_left Nat.le_add_right_of_le]
      · rw [List.takeWhile_cons_of_neg hc, List.takeWhile_cons_of_neg hc]
  | @completed o c t w e he hopen hend _ ih =>
      by_cases hc : q c = true
      · rw [List.takeWhile_cons_of_pos hc, Text.size_cons, ← Nat.add_assoc] at htags
        have hnone : e.completion.filter p = [] :=
          List.filter_eq_nil_iff.mpr fun c hc => by simp [(hp e c hc).1]
        rw [List.takeWhile_cons_of_pos hc, List.takeWhile_cons_of_pos hc, List.filter_cons,
          List.filter_cons, List.takeWhile_append_of_pos fun c hc => (hp e c hc).2,
          List.filter_append, hnone, List.nil_append,
          ih fun tag htag => (htags tag htag).imp_left Nat.le_add_right_of_le]
      · rw [List.takeWhile_cons_of_neg hc, List.takeWhile_cons_of_neg hc]
  | @inTag o c t w tag htag hstart hstop _ _ _ _ =>
      have hpos := c.utf8Size_pos
      have hapart := htags tag htag
      omega

end Confined

end MarkupRepair
