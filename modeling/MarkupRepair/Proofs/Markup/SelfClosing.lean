import MarkupRepair.Proofs.Markup.TagEnd
import MarkupRepair.Repair.Fix

/-!
# Tags with one closing bracket in reach

What follows the opening bracket of a tag reads as a self-closing tag when the only closing bracket
before the next tag stands right after a slash. Quotes cannot hide that bracket, so text in front of
it may be exchanged as long as its brackets stay and no other character than the slash comes before
the bracket.
-/

namespace MarkupRepair

/-- Whether what follows an opening bracket has one closing bracket before the next opening one,
right after a slash. -/
def ClosesItself (t : Text) : Prop :=
  (t.takeWhile (· != '<')).count '>' = 1 ∧ (t.takeWhile (· != '>')).getLast? = some '/'

section Runs

variable {q : Char} {a b : Text}

theorem takeWhile_bne_append (h : q ∉ a) (b : Text) :
    (a ++ b).takeWhile (· != q) = a ++ b.takeWhile (· != q) :=
  List.takeWhile_append_of_pos (bne_of_not_mem h)

theorem takeWhile_bne_append_cons (h : q ∉ a) (b : Text) :
    (a ++ q :: b).takeWhile (· != q) = a :=
  takeWhile_append_cons (bne_of_not_mem h) (by simp)

/-- A text up to a character is what it is up to the character in its beginning. -/
theorem takeWhile_bne_append_of_mem (h : q ∈ a) (b : Text) :
    (a ++ b).takeWhile (· != q) = a.takeWhile (· != q) := by
  obtain ⟨u, v, rfl, hu⟩ := List.eq_append_cons_of_mem h
  rw [List.append_assoc, List.cons_append, takeWhile_bne_append_cons hu,
    takeWhile_bne_append_cons hu]

/-- A beginning of a text that has a character goes on after the first occurrence of it. -/
theorem exists_of_append_eq {u v : Text} (h : a ++ b = u ++ q :: v) (hu : q ∉ u) (ha : q ∈ a) :
    ∃ w, a = u ++ q :: w ∧ v = w ++ b := by
  obtain ⟨u', w, rfl, hu'⟩ := List.eq_append_cons_of_mem ha
  rw [List.append_assoc, List.cons_append] at h
  have hsame := congrArg (List.takeWhile (· != q)) h
  rw [takeWhile_bne_append_cons hu', takeWhile_bne_append_cons hu] at hsame
  subst hsame
  exact ⟨w, rfl, (List.cons.inj (List.append_cancel_left h)).2.symm⟩

end Runs

namespace ClosesItself

variable {l x y r a b : Text}

/-- A closing bracket that stands before the next opening bracket stands in a beginning with an
opening bracket. -/
theorem closing_mem_of_opening_mem (h : ClosesItself (l ++ r)) (hl : '<' ∈ l) : '>' ∈ l := by
  have hcount := h.1
  rw [takeWhile_bne_append_of_mem hl] at hcount
  have hmem : '>' ∈ l.takeWhile (· != '<') := List.count_pos_iff.mp (by omega)
  exact (List.takeWhile_prefix _).subset hmem

/-- What comes after the next opening bracket may be any text. -/
theorem of_opening (h : ClosesItself (l ++ '<' :: a)) : ClosesItself (l ++ '<' :: b) := by
  have hsplit : ∀ w : Text, l ++ '<' :: w = l ++ ['<'] ++ w := by
    simp
  rw [hsplit] at h ⊢
  have hopening : '<' ∈ l ++ ['<'] := by
    simp
  have hclosing := h.closing_mem_of_opening_mem hopening
  unfold ClosesItself at h ⊢
  rwa [takeWhile_bne_append_of_mem hopening, takeWhile_bne_append_of_mem hclosing] at h ⊢

/-- Text without opening brackets may be exchanged for text with the same number of closing
brackets, when the bracket after the slash stands before it, or still comes after a slash. -/
theorem exchange (h : ClosesItself (l ++ (x ++ r))) (hx : '<' ∉ x) (hy : '<' ∉ y)
    (hcount : y.count '>' = x.count '>')
    (hend : '>' ∉ l → '>' ∈ x ++ r → ((l ++ (x ++ r)).takeWhile (· != '>')).getLast? = some '/' →
      ((l ++ (y ++ r)).takeWhile (· != '>')).getLast? = some '/') :
    ClosesItself (l ++ (y ++ r)) := by
  by_cases hopening : '<' ∈ l
  · have hclosing := h.closing_mem_of_opening_mem hopening
    unfold ClosesItself at h ⊢
    rwa [takeWhile_bne_append_of_mem hopening, takeWhile_bne_append_of_mem hclosing] at h ⊢
  · have hregion : ∀ w : Text, '<' ∉ w → (l ++ (w ++ r)).takeWhile (· != '<') =
        l ++ (w ++ r.takeWhile (· != '<')) := fun w hw => by
      rw [takeWhile_bne_append hopening, takeWhile_bne_append hw]
    obtain ⟨hone, hslash⟩ := h
    refine ⟨?_, ?_⟩
    · rw [hregion x hx, List.count_append, List.count_append] at hone
      rw [hregion y hy, List.count_append, List.count_append, hcount, hone]
    · by_cases hclosing : '>' ∈ l
      · rwa [takeWhile_bne_append_of_mem hclosing] at hslash ⊢
      · refine hend hclosing ?_ hslash
        have hmem : '>' ∈ (l ++ (x ++ r)).takeWhile (· != '<') :=
          List.count_pos_iff.mp (by omega)
        exact (List.mem_append.mp ((List.takeWhile_prefix _).subset hmem)).resolve_left hclosing

/-- Text without brackets may be exchanged in front of text that does not begin with the bracket
after the slash. -/
theorem exchange_plain (h : ClosesItself (l ++ (x ++ r))) (hx : '<' ∉ x) (hy : '<' ∉ y)
    (hx' : '>' ∉ x) (hy' : '>' ∉ y)
    (hlast : '>' ∉ l → r.head? = some '>' → (l ++ x).getLast? ≠ some '/') :
    ClosesItself (l ++ (y ++ r)) := by
  refine h.exchange hx hy (by rw [List.count_eq_zero.mpr hx', List.count_eq_zero.mpr hy']) ?_
  intro hl hmem hslash
  obtain ⟨u, v, rfl, hu⟩ :=
    List.eq_append_cons_of_mem ((List.mem_append.mp hmem).resolve_left hx')
  have hregion : ∀ w : Text, '>' ∉ w →
      (l ++ (w ++ (u ++ '>' :: v))).takeWhile (· != '>') = l ++ w ++ u := fun w hw => by
    rw [takeWhile_bne_append hl, takeWhile_bne_append hw, takeWhile_bne_append_cons hu,
      List.append_assoc]
  rw [hregion x hx'] at hslash
  rw [hregion y hy']
  cases u with
  | nil => exact absurd (by simpa using hslash) (hlast hl rfl)
  | cons d u =>
      rw [List.getLast?_append_of_ne_nil _ (List.cons_ne_nil d u)] at hslash ⊢
      exact hslash

/-- What ends with a slash after a beginning that does not has the slash at its own end. -/
theorem exists_of_getLast?_eq_slash (hl : l.getLast? ≠ some '/')
    (h : (l ++ a).getLast? = some '/') : ∃ u, a = u ++ ['/'] := by
  obtain rfl | ⟨u, c, rfl⟩ := List.eq_nil_or_concat' a
  · rw [List.append_nil] at h
    exact absurd h hl
  · refine ⟨u, ?_⟩
    rw [← List.append_assoc, List.getLast?_concat] at h
    rw [Option.some.inj h]

/-- A value may be put between quotes, unless a slash stands before it, or at its end right in front
of a closing bracket. -/
theorem requote {value : Text} (h : ClosesItself (l ++ (value ++ r))) (hl : l.getLast? ≠ some '/')
    (hvalue : '<' ∉ value) (hlast : r.head? = some '>' → value.getLast? ≠ some '/') :
    ClosesItself (l ++ (Fix.requote value ++ r)) := by
  have hnone : ∀ c : Char, c ≠ '"' → c ∉ value → c ∉ Fix.requote value := by
    intro c hc hmem
    simp [Fix.requote, hc, hmem]
  have hquoted := hnone _ (by decide) hvalue
  by_cases hclosing : '>' ∈ value
  · refine h.exchange hvalue hquoted ?_ fun hfree _ hslash => ?_
    · simp [Fix.requote, List.count_append, List.count_filter]
    · obtain ⟨u, v, rfl, hu⟩ := List.eq_append_cons_of_mem hclosing
      have hfront : (l ++ (u ++ '>' :: v ++ r)).takeWhile (· != '>') = l ++ u := by
        have hsplit : l ++ (u ++ '>' :: v ++ r) = l ++ u ++ '>' :: (v ++ r) := by
          simp
        rw [hsplit, takeWhile_bne_append_cons (by simp [hfree, hu])]
      rw [hfront] at hslash
      obtain ⟨w, rfl⟩ := exists_of_getLast?_eq_slash hl hslash
      have hw : '>' ∉ w := fun hmem => hu (List.mem_append_left _ hmem)
      have hsplit : l ++ (Fix.requote (w ++ ['/'] ++ '>' :: v) ++ r) =
          l ++ '"' :: w.filter (fun c => c != '"' && c != '\'') ++ ['/'] ++ '>' ::
            (v.filter (fun c => c != '"' && c != '\'') ++ '"' :: r) := by
        simp [Fix.requote]
      rw [hsplit, takeWhile_bne_append_cons (by simp [hfree, hw]), List.getLast?_concat]
  · refine h.exchange_plain hvalue hquoted hclosing (hnone _ (by decide) hclosing)
      fun _ hr hslash => ?_
    obtain ⟨u, rfl⟩ := exists_of_getLast?_eq_slash hl hslash
    exact hlast hr List.getLast?_concat

section Reading

variable {name : Text}

/-- A self-closing tag with no other closing bracket before the next tag closes itself. -/
theorem of_read? {tag : TagText} {rest : Text} (h : TagText.read? b = some tag)
    (hkind : tag.kind = .selfClosing) (hrest : '<' :: a = tag.toText ++ rest)
    (hone : (a.takeWhile (· != '<')).count '>' = 1) : ClosesItself a := by
  obtain ⟨hleading, htrailing⟩ := TagText.slashes_of_selfClosing hkind
  obtain ⟨d, w, htext, -, hnone⟩ := TagText.exists_toText_eq h
  have hinner : tag.name ++ tag.body ++ ['/'] = d :: w := by
    refine (List.append_left_inj ['>']).mp ?_
    simpa [TagText.toText, hleading, htrailing] using (List.cons.inj htext).2
  obtain rfl : a = tag.name ++ tag.body ++ ['/'] ++ '>' :: rest := by
    rw [htext, ← List.cons_append, ← hinner] at hrest
    simpa using hrest
  refine ⟨hone, ?_⟩
  rw [← hinner] at hnone
  rw [takeWhile_bne_append hnone, List.count_append] at hone
  have hclosing : '>' ∉ tag.name ++ tag.body ++ ['/'] := by
    rw [← List.count_eq_zero]
    simp only [List.takeWhile_cons, Char.reduceBNe, if_true, List.count_cons_self] at hone
    omega
  rw [takeWhile_bne_append_cons hclosing, List.getLast?_concat]

/-- What closes itself after a name is read as a self-closing tag of that name that ends with the
bracket. -/
theorem exists_read? (h : ClosesItself (name ++ r)) (hname : ∀ c ∈ name, isNameChar c = true)
    (halpha : name.head?.any Char.isAlpha = true) (hr : r.head?.all (!isNameChar ·) = true) :
    ∃ tag, TagText.read? (name ++ r) = some tag ∧ tag.name = name ∧ tag.kind = .selfClosing ∧
      tag.toText = '<' :: ((name ++ r).takeWhile (· != '>') ++ ['>']) := by
  have hfree : ∀ c : Char, isNameChar c = false → c ∉ name := fun c hc =>
    not_mem_of_class hname hc
  obtain ⟨hone, hslash⟩ := h
  rw [takeWhile_bne_append (hfree _ (by decide)), List.count_append,
    List.count_eq_zero.mpr (hfree _ (by decide)), Nat.zero_add] at hone
  have hend : TagText.HasEnd none (r.takeWhile (· != '<')) :=
    List.count_pos_iff.mp (Nat.lt_of_lt_of_eq Nat.zero_lt_one hone.symm)
  obtain ⟨rest, hrest⟩ := TagText.exists_untilEnd_append hend
  generalize hinner : TagText.untilEnd none (r.takeWhile (· != '<')) = inner at hrest
  have hclosing : '>' ∉ inner := by
    rw [hrest, List.count_append, List.count_cons_self] at hone
    rw [← List.count_eq_zero]
    omega
  have hr' : r = inner ++ '>' :: (rest ++ r.dropWhile (· != '<')) := by
    nth_rewrite 1 [← List.takeWhile_append_dropWhile (p := (· != '<')) (l := r), hrest]
    simp
  have hupto : (name ++ r).takeWhile (· != '>') = name ++ inner := by
    rw [hr', takeWhile_bne_append (hfree _ (by decide)), takeWhile_bne_append_cons hclosing]
  rw [hupto] at hslash ⊢
  obtain ⟨body, rfl⟩ : ∃ body, inner = body ++ ['/'] := by
    obtain rfl | ⟨body, c, rfl⟩ := List.eq_nil_or_concat' inner
    · rw [List.append_nil] at hslash
      exact absurd (List.mem_of_getLast? hslash) (hfree _ (by decide))
    · rw [← List.append_assoc, List.getLast?_concat] at hslash
      exact ⟨body, by rw [Option.some.inj hslash]⟩
  refine ⟨⟨false, name, body, true⟩, ?_, rfl, rfl, by simp [TagText.toText]⟩
  have hparts : r = body ++ '/' :: '>' :: (rest ++ r.dropWhile (· != '<')) := by
    nth_rewrite 1 [hr']
    simp
  generalize rest ++ r.dropWhile (· != '<') = later at hparts
  subst hparts
  exact TagText.read?_selfClosing hname halpha hr hend hinner

end Reading

end ClosesItself

end MarkupRepair
