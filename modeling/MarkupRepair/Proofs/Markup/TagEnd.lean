import MarkupRepair.Proofs.Markup.Entity
import MarkupRepair.Proofs.Markup.Tokens

/-!
# Where a tag ends

Only quotes and closing brackets decide where a tag ends. So a tag that was read from a text ends at
the same bracket when other characters are put into it or into the text behind it.
-/

namespace MarkupRepair

namespace TagText

/-- Whether a character can decide where a tag ends. -/
def isEndMark (c : Char) : Bool := c == '"' || c == '\'' || c == '>'

variable {quote : Option Char} {c : Char} {a b r r' : Text}

/-- A quote opens a quoted stretch by what quotes and closing brackets come after it. -/
theorem opensQuoted_filter (c : Char) (t : Text) :
    opensQuoted c (t.filter isEndMark) = opensQuoted c t := by
  unfold opensQuoted
  cases hc : c == '"' || c == '\'' with
  | false => rfl
  | true =>
      have hmark : isEndMark c = true := by
        rw [isEndMark, hc, Bool.true_or]
      rw [Bool.true_and, Bool.true_and]
      induction t with
      | nil => rfl
      | cons d t ih =>
          by_cases hd : d = c
          · rw [hd, List.filter_cons_of_pos hmark, Bool.eq_iff_iff]
            simp [isEndMark]
          · rw [List.dropWhile_cons_of_pos (by simpa using hd), ← ih]
            by_cases hmark' : isEndMark d = true
            · rw [List.filter_cons_of_pos hmark', List.dropWhile_cons_of_pos (by simpa using hd)]
            · rw [List.filter_cons_of_neg hmark']

theorem untilEnd_cons_of_not_mark (hquote : quote.all isEndMark = true) (hc : isEndMark c = false)
    (t : Text) : untilEnd quote (c :: t) = c :: untilEnd quote t := by
  cases quote with
  | none =>
      simp only [isEndMark, Bool.or_eq_false_iff, beq_eq_false_iff_ne] at hc
      simp [untilEnd, opensQuoted, hc]
  | some q =>
      have hne : c ≠ q := by
        rintro rfl
        rw [Option.all_some, hc] at hquote
        cases hquote
      rw [untilEnd, if_neg hne]

theorem untilEnd_append_of_not_mark (hquote : quote.all isEndMark = true)
    (ha : ∀ c ∈ a, isEndMark c = false) (t : Text) :
    untilEnd quote (a ++ t) = a ++ untilEnd quote t := by
  induction a with
  | nil => rfl
  | cons c a ih =>
      rw [List.forall_mem_cons] at ha
      rw [List.cons_append, untilEnd_cons_of_not_mark hquote ha.1, ih ha.2, List.cons_append]

/-- A quote that opens a quoted stretch opens one in front of more text as well. -/
theorem opensQuoted_append (h : opensQuoted c a = true) (b : Text) :
    opensQuoted c (a ++ b) = true := by
  unfold opensQuoted at h ⊢
  rw [Bool.and_eq_true, List.contains_iff_mem] at h ⊢
  refine ⟨h.1, ?_⟩
  have hmem : c ∈ a := by
    by_contra hnone
    rw [List.dropWhile_eq_nil_iff.mpr (bne_of_not_mem hnone)] at h
    cases h.2
  obtain ⟨u, v, rfl, hu⟩ := List.eq_append_cons_of_mem hmem
  have hafter : ∀ w : Text, ((u ++ c :: w).dropWhile (· != c)).drop 1 = w := fun w => by
    rw [dropWhile_append_cons (bne_of_not_mem hu) (by simp), List.drop_one, List.tail_cons]
  rw [hafter] at h
  rw [List.append_assoc, List.cons_append, hafter]
  exact List.mem_append_left _ h.2

/-- A quote opens a quoted stretch when it comes again before a closing bracket. -/
theorem opensQuoted_of_mem (hquote : (c == '"' || c == '\'') = true) (ha : c ∈ a) (b : Text) :
    opensQuoted c (a ++ '>' :: b) = true := by
  obtain ⟨u, v, rfl, hu⟩ := List.eq_append_cons_of_mem ha
  rw [opensQuoted, hquote, Bool.true_and, List.contains_iff_mem, List.append_assoc,
    List.cons_append, dropWhile_append_cons (bne_of_not_mem hu) (by simp), List.drop_one,
    List.tail_cons]
  simp

/-- A quoted stretch is left at its quote. -/
theorem mem_of_untilEnd_some {q : Char} {d : Char} (h : untilEnd (some q) (a ++ d :: r) = a) :
    q ∈ a := by
  induction a with
  | nil => cases h
  | cons c a ih =>
      rw [List.cons_append, untilEnd, List.cons.injEq] at h
      by_cases hc : c = q
      · rw [hc]
        exact List.mem_cons_self
      · rw [if_neg hc] at h
        exact List.mem_cons_of_mem c (ih h.2)

/-- A quote that comes again before a closing bracket, or opens no quoted stretch at all, does the
same when other characters stand there and when less stands behind the bracket. -/
theorem opensQuoted_eq_of_marks (hinner : b.filter isEndMark = a.filter isEndMark)
    (hrest : r'.filter isEndMark <+: r.filter isEndMark) (hc : isEndMark c = true)
    (hmem : opensQuoted c (a ++ '>' :: r) = true → c ∈ a) :
    opensQuoted c (b ++ '>' :: r') = opensQuoted c (a ++ '>' :: r) := by
  rw [Bool.eq_iff_iff]
  refine ⟨fun hopens => ?_, fun hopens => ?_⟩
  · obtain ⟨more, hmore⟩ := hrest
    have hmark : isEndMark '>' = true := rfl
    have hsame : (a ++ '>' :: r).filter isEndMark = (b ++ '>' :: r').filter isEndMark ++ more := by
      rw [List.filter_append, List.filter_append, List.filter_cons_of_pos hmark,
        List.filter_cons_of_pos hmark, hinner, ← hmore]
      simp
    rw [← opensQuoted_filter] at hopens ⊢
    rw [hsame]
    exact opensQuoted_append hopens more
  · have hmem := List.mem_filter.mpr ⟨hmem hopens, hc⟩
    rw [← hinner] at hmem
    exact opensQuoted_of_mem (Bool.and_eq_true_iff.mp hopens).1 (List.mem_filter.mp hmem).1 _

/-- A tag that ends at a bracket ends there whatever characters that do not decide it stand in it
and behind it, and when less stands behind it. -/
theorem untilEnd_eq_of_marks (hinner : b.filter isEndMark = a.filter isEndMark)
    (hrest : r'.filter isEndMark <+: r.filter isEndMark) (hquote : quote.all isEndMark = true)
    (h : untilEnd quote (a ++ '>' :: r) = a) : untilEnd quote (b ++ '>' :: r') = b := by
  induction b generalizing a quote with
  | nil =>
      have hplain : ∀ c ∈ a, isEndMark c = false := by
        simpa using List.filter_eq_nil_iff.mp hinner.symm
      rw [untilEnd_append_of_not_mark hquote hplain, List.append_right_eq_self] at h
      cases quote with
      | none => rfl
      | some q => cases h
  | cons c b ih =>
      by_cases hc : isEndMark c = true
      · rw [List.filter_cons_of_pos hc] at hinner
        obtain ⟨n, v, rfl, hn, -, hv⟩ := List.filter_eq_cons_iff.mp hinner.symm
        have hplain : ∀ c ∈ n, isEndMark c = false := by
          simpa using hn
        rw [List.append_assoc, untilEnd_append_of_not_mark hquote hplain, List.append_right_inj,
          List.cons_append] at h
        cases quote with
        | some q =>
            have hnext : (if c = q then none else some q).all isEndMark = true := by
              split
              · rfl
              · exact hquote
            rw [untilEnd, List.cons.injEq] at h
            rw [List.cons_append, untilEnd, ih hv.symm hnext h.2]
        | none =>
            have hne : c ≠ '>' := by
              rintro rfl
              cases h
            rw [untilEnd, if_neg hne] at h
            have hsame := opensQuoted_eq_of_marks hv.symm hrest hc fun hopens => by
              rw [if_pos hopens] at h
              exact mem_of_untilEnd_some (List.cons.inj h).2
            rw [List.cons_append, untilEnd, if_neg hne, hsame]
            split at h
            next hopens =>
              rw [if_pos hopens, ih hv.symm (by simpa using hc) (List.cons.inj h).2]
            next hplain => rw [if_neg hplain, ih hv.symm rfl (List.cons.inj h).2]
      · rw [List.filter_cons_of_neg hc] at hinner
        rw [Bool.not_eq_true] at hc
        rw [List.cons_append, untilEnd_cons_of_not_mark hquote hc, ih hinner hquote h]

/-- A name, a body and a slash are read as a self-closing tag when the bracket after them ends a tag
in the text up to the next opening bracket. -/
theorem read?_selfClosing {name body rest : Text} (hname : ∀ c ∈ name, isNameChar c = true)
    (halpha : name.head?.any Char.isAlpha = true)
    (hstop : (body ++ '/' :: '>' :: rest).head?.all (!isNameChar ·) = true)
    (hclosing : '>' ∈ (body ++ '/' :: '>' :: rest).takeWhile (· != '<'))
    (hend : untilEnd none ((body ++ '/' :: '>' :: rest).takeWhile (· != '<')) = body ++ ['/']) :
    read? (name ++ (body ++ '/' :: '>' :: rest)) = some ⟨false, name, body, true⟩ := by
  have hread := read?_name_append (Or.inl rfl) halpha hname hstop hclosing hend
  simpa using hread

end TagText

end MarkupRepair
