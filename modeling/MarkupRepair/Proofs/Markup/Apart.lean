import MarkupRepair.Proofs.Markup.Insertion
import MarkupRepair.Proofs.Markup.Sections

/-!
# Tags before and after a place

No tag reaches past an opening bracket, and blanks behind a tag do not move its end. So the tags of
a text with such a place in it are those of what stands before the place, read by itself, and those
of what comes after it.
-/

namespace MarkupRepair

/-- Whether a text is read as the name of a tag. -/
structure IsTagName (name : Text) : Prop where
  /-- It begins with a letter. -/
  letter : name.head?.any Char.isAlpha = true
  /-- It has name characters only. -/
  nameChars : ∀ c ∈ name, isNameChar c = true

namespace TagText

variable {k r : Text}

/-- Whether a text puts no quote and no closing bracket in front of the next opening bracket when it
stands behind another text. -/
def AddsNoMark (k : Text) : Prop :=
  ∀ m : Text, ((m ++ k).takeWhile (· != '<')).filter isEndMark =
    (m.takeWhile (· != '<')).filter isEndMark

/-- An opening bracket keeps what comes after it away. -/
theorem addsNoMark_bracket (b : Text) : AddsNoMark ('<' :: b) := by
  intro m
  by_cases hm : '<' ∈ m
  · obtain ⟨u, v, rfl, hu⟩ := List.eq_append_cons_of_mem hm
    simp [List.takeWhile_append_of_pos (bne_of_not_mem hu)]
  · rw [List.takeWhile_append_of_pos (bne_of_not_mem hm)]
    simp [List.takeWhile_eq_self_iff.mpr (bne_of_not_mem hm)]

/-- Blanks are no marks. -/
theorem addsNoMark_blanks (hk : ∀ c ∈ k, isWhiteSpace c = true) : AddsNoMark k := by
  intro m
  have hmarks : k.filter isEndMark = [] := by
    refine List.filter_eq_nil_iff.mpr fun c hc hmark => ?_
    simp only [isEndMark, Bool.or_eq_true, beq_iff_eq] at hmark
    rcases hmark with (rfl | rfl) | rfl
    all_goals exact absurd (hk _ hc) (by decide)
  have hsame := filter_takeWhile_insert hmarks (not_mem_of_class hk (by decide)) m []
  rwa [List.append_nil, List.append_nil] at hsame

/-- A closing bracket in front of the next opening one stands in front of such a text. -/
theorem AddsNoMark.exists_of_closing (hk : AddsNoMark k) {u v : Text}
    (h : r ++ k = u ++ '>' :: v) (hu : '<' ∉ u) : ∃ m, r = u ++ '>' :: m ∧ v = m ++ k := by
  rw [List.append_cons] at h
  rcases List.append_eq_append_iff.mp h with ⟨m, hm, rfl⟩ | ⟨m, rfl, rfl⟩
  · rcases List.eq_nil_or_concat' m with rfl | ⟨m, c, rfl⟩
    · exact ⟨[], by simpa using hm.symm, rfl⟩
    · exfalso
      rw [← List.append_assoc] at hm
      obtain ⟨rfl, hc⟩ := List.append_inj' hm rfl
      obtain rfl := (List.cons.inj hc).1
      have hmarks := hk r
      have hr : '<' ∉ r := fun hmem => hu (List.mem_append_left m hmem)
      rw [List.append_assoc, ← List.append_assoc, List.takeWhile_append_of_pos (bne_of_not_mem hu),
        List.takeWhile_eq_self_iff.mpr (bne_of_not_mem hr), List.filter_append, List.filter_append,
        List.append_assoc, List.append_right_eq_self, List.append_eq_nil_iff] at hmarks
      simp [isEndMark] at hmarks
  · exact ⟨m, by simp, rfl⟩

/-- The tag in front of such a text is read without it. -/
theorem read?_append (hk : AddsNoMark k) (r : Text) : read? (r ++ k) = read? r := by
  have hread : ∀ {slash name inner rest rest' : Text},
      Parts (slash ++ (name ++ (inner ++ '>' :: rest))) slash name inner rest →
      (rest'.takeWhile (· != '<')).filter isEndMark = (rest.takeWhile (· != '<')).filter isEndMark →
      read? (slash ++ (name ++ (inner ++ '>' :: rest'))) = some (ofParts slash name inner) :=
    fun h hmarks => (h.of_marks _ _ rfl (h.reads.not_mem h.closes) rfl hmarks).read?_eq
  cases htag : read? r with
  | some tag =>
      obtain ⟨slash, name, inner, rest, hparts⟩ := (starts_of_read? htag).exists_parts
      obtain rfl := Option.some.inj (htag.symm.trans hparts.read?_eq)
      have heq := hparts.eq
      rw [heq] at hparts
      rw [heq]
      have happended := hread hparts (hk rest)
      simpa using happended
  | none =>
      cases htag' : read? (r ++ k) with
      | none => rfl
      | some tag =>
          obtain ⟨slash, name, inner, rest, hparts⟩ := (starts_of_read? htag').exists_parts
          have hfront : '<' ∉ slash ++ (name ++ inner) := by
            have hname := not_mem_of_class hparts.nameChars (by decide : isNameChar '<' = false)
            have hinner := hparts.reads.not_mem hparts.closes
            rcases hparts.slash with rfl | rfl <;> simp [hname, hinner]
          have heq := hparts.eq
          have hsplit : r ++ k = slash ++ (name ++ inner) ++ '>' :: rest := by
            simpa using heq
          obtain ⟨m, rfl, rfl⟩ := hk.exists_of_closing hsplit hfront
          rw [heq] at hparts
          rw [List.append_assoc, List.append_assoc, hread hparts (hk m).symm] at htag
          cases htag

/-- The tags of a text with such a text behind it. -/
theorem all_append (hk : AddsNoMark k) (offset : Nat) (a : Text) :
    all offset (a ++ k) = all offset a ++ all (offset + Text.size a) k := by
  induction a generalizing offset with
  | nil => rfl
  | cons c a ih =>
      have hstart : atStart? (c :: (a ++ k)) = atStart? (c :: a) := by
        by_cases hc : c = '<'
        · subst hc
          exact read?_append hk a
        · have hnone : ∀ r, atStart? (c :: r) = none := fun r => by
            unfold atStart?
            split
            next h => exact absurd (List.cons.inj h).1 hc
            next => rfl
          rw [hnone, hnone]
      rw [List.cons_append, all_cons, all_cons, hstart, ih, Text.size_cons, ← Nat.add_assoc,
        List.append_assoc]

/-- The tags of a text with an opening bracket behind it. -/
theorem all_append_bracket (offset : Nat) (a b : Text) :
    all offset (a ++ '<' :: b) = all offset a ++ all (offset + Text.size a) ('<' :: b) :=
  all_append (addsNoMark_bracket b) offset a

/-- Blanks behind a text have no tags and change none. -/
theorem all_append_blanks (hk : ∀ c ∈ k, isWhiteSpace c = true) (offset : Nat) (a : Text) :
    all offset (a ++ k) = all offset a := by
  have hnone := all_append_of_not_mem (not_mem_of_class hk (by decide : isWhiteSpace '<' = false))
    (offset + Text.size a) []
  rw [List.append_nil] at hnone
  rw [all_append (addsNoMark_blanks hk), hnone, all, List.append_nil]

/-- The tags from the bracket of a tag on are that one and those behind it. -/
theorem Parts.all_eq {after slash name inner rest : Text} (h : Parts after slash name inner rest)
    (offset : Nat) : all offset ('<' :: after) =
      (offset, ofParts slash name inner) ::
        all (offset + (ofParts slash name inner).size) rest := by
  have hbracket : '<' ∉ slash ++ (name ++ (inner ++ ['>'])) := by
    have hname : '<' ∉ name := not_mem_of_class h.nameChars (by decide)
    have hinner := h.reads.not_mem h.closes
    rcases h.slash with rfl | rfl <;> simp [hname, hinner]
  have hsplit : '<' :: after = '<' :: (slash ++ (name ++ (inner ++ ['>']))) ++ rest := by
    simp [h.eq]
  have hread : atStart? ('<' :: after) = some (ofParts slash name inner) := h.read?_eq
  rw [hsplit] at hread ⊢
  rw [size, toText_ofParts h.slash]
  exact all_append_of_atStart? hbracket hread offset

/-- A closing tag is read as such, wherever it stands. -/
theorem all_closing {name : Text} (h : IsTagName name) (offset : Nat) (z : Text) :
    all offset ('<' :: ('/' :: name ++ ['>']) ++ z) = (offset, ofParts ['/'] name []) ::
      all (offset + Text.size ('<' :: ('/' :: name ++ ['>']))) z := by
  have hparts : Parts ('/' :: (name ++ '>' :: z)) ['/'] name [] z :=
    { eq := rfl
      slash := .inr rfl
      letter := h.letter
      nameChars := h.nameChars
      maximal := rfl
      closes := ⟨[], z, rfl, List.not_mem_nil⟩
      reads := .ends z }
  have hbracket : '<' ∉ name := not_mem_of_class h.nameChars (by decide)
  exact all_append_of_atStart? (by simp [hbracket]) (by simpa [atStart?] using hparts.read?_eq)
    offset

section Written

variable {tag : TagText}

/-- No section begins in a tag as it is written. -/
theorem opensNothing_toText (h : read? r = some tag) : Segment.OpensNothing tag.toText := by
  obtain ⟨d, w, htext, hd, hbracket⟩ := exists_toText_eq h
  have hrest : '<' ∉ d :: w ++ ['>'] := by
    simpa using hbracket
  rw [htext]
  exact Segment.opensNothing_of_freeOfDeclarations
    ⟨fun _ => ⟨d, w ++ ['>'], rfl, hd⟩, freeOfDeclarations_of_not_mem hrest⟩

/-- The tag without the blanks at the end of its body, as an opening and a closing tag. -/
def expanded (tag : TagText) : Text :=
  '<' :: (tag.name ++ trimEnd tag.body ++ ['>', '<', '/'] ++ tag.name ++ ['>'])

/-- No opening bracket stands in what is left of the body of a tag. -/
theorem bracket_not_mem_trimEnd_body (h : read? r = some tag) : '<' ∉ trimEnd tag.body := by
  obtain ⟨blanks, hblanks, -⟩ := exists_trimEnd_append tag.body
  intro hmem
  refine bracket_not_mem_body h ?_
  rw [hblanks]
  exact List.mem_append_left _ hmem

/-- No section begins in an opening and a closing tag either. -/
theorem opensNothing_expanded (h : read? r = some tag) : Segment.OpensNothing tag.expanded := by
  obtain ⟨hchars, c, s, hcons, halpha⟩ := name_of_read? h
  have hname : '<' ∉ tag.name := not_mem_of_class hchars (by decide)
  have hbody := bracket_not_mem_trimEnd_body h
  have hopens : FreeOfDeclarations ('<' :: (tag.name ++ trimEnd tag.body ++ ['>'])) := by
    refine ⟨fun _ => ⟨c, s ++ trimEnd tag.body ++ ['>'], by simp [hcons], ?_⟩, ?_⟩
    · exact ne_of_class halpha (by decide)
    · exact freeOfDeclarations_of_not_mem (by simp [hname, hbody])
  have hcloses : FreeOfDeclarations ('<' :: '/' :: (tag.name ++ ['>'])) :=
    ⟨fun _ => ⟨'/', _, rfl, by decide⟩, freeOfDeclarations_of_not_mem (by simp [hname])⟩
  refine Segment.opensNothing_of_freeOfDeclarations ?_
  simpa [expanded] using hopens.append hcloses

section Parts

variable {slash name inner rest : Text}

/-- A self-closing tag is still one tag without its slash and the blanks in front of it. -/
theorem Parts.expand (h : Parts r slash name inner rest)
    (hkind : (ofParts slash name inner).kind = .selfClosing) (z : Text) :
    Parts (name ++ (trimEnd (bodyOf inner) ++ '>' :: '<' :: z)) [] name (trimEnd (bodyOf inner))
      ('<' :: z) := by
  rw [kind_ofParts] at hkind
  obtain rfl : slash = [] := by
    by_contra hslash
    rw [if_pos hslash] at hkind
    cases hkind
  have hlast : inner.getLast? = some '/' := by
    by_contra hlast
    rw [if_neg (by simp), if_neg hlast] at hkind
    cases hkind
  obtain ⟨blanks, hblanks, hall⟩ := exists_trimEnd_append (bodyOf inner)
  have hinner : inner = trimEnd (bodyOf inner) ++ (blanks ++ ['/']) := by
    have hsplit := bodyOf_append_slashOf inner
    rw [slashOf, hlast, beq_self_eq_true, if_pos rfl] at hsplit
    rw [← List.append_assoc, ← hblanks, hsplit]
  generalize trimEnd (bodyOf inner) = kept at hinner
  subst hinner
  have hgone : (blanks ++ ['/']).filter isEndMark = [] := by
    have hempty := addsNoMark_blanks hall []
    rw [List.takeWhile_nil, List.filter_nil, List.nil_append, List.takeWhile_eq_self_iff.mpr
      (bne_of_not_mem (not_mem_of_class hall (by decide)))] at hempty
    rw [List.filter_append, hempty]
    rfl
  have hhead : kept.head?.all (!isNameChar ·) = true := by
    have hhead := h.all_head?_inner
    cases kept with
    | nil => rfl
    | cons c kept => exact hhead
  refine h.of_fewer_marks kept ('<' :: z) (by rw [List.filter_append, hgone, List.append_nil])
    (fun hmem => ?_) hhead (by simp)
  exact h.reads.not_mem h.closes (List.mem_append_left _ hmem)

end Parts

/-- A self-closing tag that is expanded is read as a tag with what is left of its body, and as the
closing tag of its name. -/
theorem all_expanded (h : read? r = some tag) (hkind : tag.kind = .selfClosing) (offset : Nat)
    (z : Text) : ∃ o, all offset (tag.expanded ++ z) =
      (offset, ofParts [] tag.name (trimEnd tag.body)) :: (o, ofParts ['/'] tag.name []) ::
        all (offset + Text.size tag.expanded) z := by
  have hname : '<' ∉ tag.name := not_mem_of_class (name_of_read? h).1 (by decide)
  have hbody := bracket_not_mem_trimEnd_body h
  obtain ⟨slash, name, inner, rest, hparts⟩ := (starts_of_read? h).exists_parts
  obtain rfl := Option.some.inj (h.symm.trans hparts.read?_eq)
  have hopener := (hparts.expand hkind ('/' :: (name ++ '>' :: z))).read?_eq
  change '<' ∉ name at hname
  change '<' ∉ trimEnd (bodyOf inner) at hbody
  have hsplit : (ofParts slash name inner).expanded = '<' :: (name ++ trimEnd (bodyOf inner) ++
      ['>']) ++ '<' :: ('/' :: name ++ ['>']) := by
    simp [expanded, ofParts]
  have hfirst : all offset ('<' :: (name ++ trimEnd (bodyOf inner) ++ ['>']) ++
      ('<' :: ('/' :: name ++ ['>']) ++ z)) = _ :=
    all_append_of_atStart? (by simp [hname, hbody]) (by simpa [atStart?] using hopener) offset
  have hsecond := all_closing ⟨hparts.letter, hparts.nameChars⟩
    (offset + Text.size ('<' :: (name ++ trimEnd (bodyOf inner) ++ ['>']))) z
  rw [Nat.add_assoc, ← Text.size_append, ← hsplit] at hsecond
  rw [hsecond, ← List.append_assoc, ← hsplit] at hfirst
  exact ⟨_, hfirst⟩

end Written

end TagText

end MarkupRepair
