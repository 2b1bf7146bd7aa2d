import MarkupRepair.Proofs.Markup.Grammar
import MarkupRepair.Proofs.Markup.TagEnd
import MarkupRepair.Proofs.Text.Parts

/-!
# Tags around inserted characters

What happens to the tags of a text when characters other than angle brackets and quotes are put
behind the name of a reference. No tag begins or ends anywhere else, and each keeps its name. Only a
slash in front of a closing bracket can get lost: a name may end with it, and then the inserted
characters come between the two.
-/

namespace MarkupRepair

/-- The kind and the name of a tag. -/
def TagToken.outline (tag : TagToken) : TagKind × Text := (tag.kind, tag.name)

/-- The kind and the name of a tag once something stands in front of what comes at an offset. A
self-closing tag whose closing bracket comes there is an opening one then. -/
def TagToken.outlineCut (offset : Nat) (tag : TagToken) : TagKind × Text :=
  (if tag.kind = .selfClosing ∧ offset + 1 = tag.span.stop then .opening else tag.kind, tag.name)

namespace TagToken

variable {offset : Nat} {tag : TagToken}

/-- A tag that does not lose its slash keeps its kind and its name. -/
theorem outlineCut_eq_outline_iff :
    tag.outlineCut offset = tag.outline ↔
      (tag.kind = .selfClosing → offset + 1 ≠ tag.span.stop) := by
  simp only [outlineCut, outline, Prod.mk.injEq, and_true]
  by_cases hkind : tag.kind = .selfClosing
  · simp [hkind]
  · simp [hkind]

theorem outline_ofText (index : LineIndex) (o : Nat) (tag : TagText) :
    (ofText index (o, tag)).outline = (tag.kind, Text.toLowerAscii tag.name) := rfl

theorem outlineCut_ofText (index : LineIndex) (offset o : Nat) (tag : TagText) :
    (ofText index (o, tag)).outlineCut offset =
      (if tag.kind = .selfClosing ∧ offset + 1 = o + tag.size then .opening else tag.kind,
        Text.toLowerAscii tag.name) := rfl

end TagToken

namespace TagText

section Marks

variable {k z : Text}

/-- Up to the next opening bracket the marks stay the same. -/
theorem filter_takeWhile_insert (hk : k.filter isEndMark = []) (hopen : '<' ∉ k) (a z : Text) :
    ((a ++ (k ++ z)).takeWhile (· != '<')).filter isEndMark =
      ((a ++ z).takeWhile (· != '<')).filter isEndMark := by
  induction a with
  | nil =>
      rw [List.nil_append, List.takeWhile_append_of_pos (bne_of_not_mem hopen), List.filter_append,
        hk, List.nil_append, List.nil_append]
  | cons c a ih =>
      rw [List.cons_append, List.cons_append, List.takeWhile_cons, List.takeWhile_cons]
      split
      · rw [List.filter_cons, List.filter_cons, ih]
      · rfl

theorem closesSoon_insert (hk : k.filter isEndMark = []) (hopen : '<' ∉ k) (a z : Text) :
    ClosesSoon (a ++ (k ++ z)) ↔ ClosesSoon (a ++ z) := by
  have hmark : ∀ t : Text, ClosesSoon t ↔ '>' ∈ (t.takeWhile (· != '<')).filter isEndMark := by
    intro t
    rw [closesSoon_iff, List.mem_filter]
    exact (and_iff_left rfl).symm
  rw [hmark, hmark, filter_takeWhile_insert hk hopen]

end Marks

section Parts

variable {w after name tagName slash inner rest k z : Text}

/-- Reading on ends where the end is read. -/
theorem readsOn_of_untilEnd (hcloses : ClosesSoon (inner ++ '>' :: rest))
    (h : untilEnd none ((inner ++ '>' :: rest).takeWhile (· != '<')) = inner) :
    ReadsOn (inner ++ '>' :: rest) inner rest := by
  obtain ⟨inner', rest', hreads⟩ := exists_readsOn hcloses
  obtain rfl := (untilEnd_of_readsOn hreads hcloses).symm.trans h
  obtain rfl := (List.cons.inj (List.append_cancel_left hreads.eq_append)).2
  exact hreads

/-- The end of a tag stays its end when the quotes and closing brackets in the tag are the same and
there are no others behind it up to the next opening bracket. -/
theorem Parts.of_fewer_marks (h : Parts after slash tagName inner rest) (inner' rest' : Text)
    (hinner : inner'.filter isEndMark = inner.filter isEndMark) (hopen : '<' ∉ inner')
    (hhead : inner'.head?.all (!isNameChar ·) = true)
    (hrest : (rest'.takeWhile (· != '<')).filter isEndMark <+:
      (rest.takeWhile (· != '<')).filter isEndMark) :
    Parts (slash ++ (tagName ++ (inner' ++ '>' :: rest'))) slash tagName inner' rest' := by
  have hcloses : ClosesSoon (inner' ++ '>' :: rest') := ⟨inner', rest', rfl, hopen⟩
  have hregion : ∀ {a r : Text}, '<' ∉ a → (a ++ '>' :: r).takeWhile (· != '<') =
      a ++ '>' :: r.takeWhile (· != '<') := fun {a r} ha => by
    rw [List.takeWhile_append_of_pos (bne_of_not_mem ha), List.takeWhile_cons_of_pos (by decide)]
  have hend := untilEnd_of_readsOn h.reads h.closes
  rw [hregion (h.reads.not_mem h.closes)] at hend
  refine ⟨rfl, h.slash, h.letter, h.nameChars, ?_, hcloses, readsOn_of_untilEnd hcloses ?_⟩
  · cases inner' with
    | nil => rfl
    | cons c inner' => exact hhead
  rw [hregion hopen]
  exact untilEnd_eq_of_marks hinner hrest rfl hend

/-- What a tag passes over does not begin with a name character. -/
theorem Parts.all_head?_inner (h : Parts after slash tagName inner rest) :
    inner.head?.all (!isNameChar ·) = true := by
  have hmaximal := h.maximal
  cases inner with
  | nil => rfl
  | cons c inner => exact hmaximal

/-- The end of a tag stays its end when the quotes and closing brackets in the tag, and those behind
it up to the next opening bracket, are the same. -/
theorem Parts.of_marks (h : Parts after slash tagName inner rest) (inner' rest' : Text)
    (hinner : inner'.filter isEndMark = inner.filter isEndMark) (hopen : '<' ∉ inner')
    (hhead : inner'.head? = inner.head?)
    (hrest : (rest'.takeWhile (· != '<')).filter isEndMark =
      (rest.takeWhile (· != '<')).filter isEndMark) :
    Parts (slash ++ (tagName ++ (inner' ++ '>' :: rest'))) slash tagName inner' rest' :=
  h.of_fewer_marks inner' rest' hinner hopen (hhead ▸ h.all_head?_inner) (hrest ▸ List.prefix_rfl)

/-- A reference in the text of a tag stands behind the tag, or behind the name of the tag and in
front of its end. -/
theorem Parts.around (h : Parts (w ++ '&' :: (name ++ z)) slash tagName inner rest)
    (hname : ∀ c ∈ name, isEntityNameChar c = true) :
    (∃ v, w = slash ++ (tagName ++ (inner ++ '>' :: v)) ∧ rest = v ++ '&' :: (name ++ z)) ∨
      ∃ v y, w = slash ++ (tagName ++ v) ∧ inner = v ++ '&' :: (name ++ y) ∧
        z = y ++ '>' :: rest := by
  have hfront : '&' ∉ slash ++ tagName := by
    have htagName := not_mem_of_class h.nameChars (by decide : isNameChar '&' = false)
    rcases h.slash with rfl | rfl <;> simp [htagName]
  have hclosing : '>' ∉ '&' :: name := by
    simp [not_mem_of_class hname (by decide : isEntityNameChar '>' = false)]
  have heq := h.eq
  rw [← List.append_assoc slash] at heq
  obtain ⟨v, rfl, hv⟩ := exists_eq_append_of_not_mem heq hfront
  rcases List.append_eq_append_iff.mp hv with ⟨m, rfl, hm⟩ | ⟨m, rfl, hm⟩
  · cases m with
    | nil => cases (List.cons.inj hm).1
    | cons d m =>
        obtain ⟨rfl, hrest⟩ := List.cons.inj hm
        exact Or.inl ⟨m, by simp, hrest⟩
  · obtain ⟨y, rfl, hy⟩ := exists_eq_append_of_not_mem (u := '&' :: name) hm.symm hclosing
    exact Or.inr ⟨v, y, by simp, by simp, hy⟩

/-- The parts of a tag when characters that decide no end are put behind the name of a reference:
nothing changes in a tag that is over before the reference, and a tag around the reference is longer
by these characters. -/
theorem Parts.insert (h : Parts (w ++ '&' :: (name ++ z)) slash tagName inner rest)
    (hname : ∀ c ∈ name, isEntityNameChar c = true) (hk : k.filter isEndMark = [])
    (hopen : '<' ∉ k) :
    (∃ v rest', w = slash ++ (tagName ++ (inner ++ '>' :: v)) ∧
        Parts (w ++ '&' :: (name ++ (k ++ z))) slash tagName inner rest') ∨
      ∃ v y, w = slash ++ (tagName ++ v) ∧ inner = v ++ '&' :: name ++ y ∧
        Parts (w ++ '&' :: (name ++ (k ++ z))) slash tagName (v ++ '&' :: name ++ (k ++ y))
          rest := by
  have hbracket := h.reads.not_mem h.closes
  rcases h.around hname with ⟨v, hw, hrest⟩ | ⟨v, y, hw, hinner, hz⟩
  · have hmarks := filter_takeWhile_insert hk hopen (v ++ '&' :: name) z
    have hparts := h.of_marks inner (v ++ '&' :: (name ++ (k ++ z))) rfl hbracket rfl
      (by simpa [hrest] using hmarks)
    have hnew : w ++ '&' :: (name ++ (k ++ z)) =
        slash ++ (tagName ++ (inner ++ '>' :: (v ++ '&' :: (name ++ (k ++ z))))) := by
      simp [hw]
    exact Or.inl ⟨v, _, hw, hnew ▸ hparts⟩
  · have hfront : v ++ '&' :: (name ++ y) = v ++ '&' :: name ++ y := by
      simp
    rw [hfront] at hinner
    subst hinner
    have hparts := h.of_marks (v ++ '&' :: name ++ (k ++ y)) rest
      (by simp only [List.filter_append, hk, List.nil_append])
      (by simpa [hopen] using hbracket) (by cases v <;> rfl) rfl
    have hnew : w ++ '&' :: (name ++ (k ++ z)) = slash ++ (tagName ++
        (v ++ '&' :: name ++ (k ++ y) ++ '>' :: rest)) := by
      simp [hw, hz]
    exact Or.inr ⟨v, y, hw, rfl, hnew ▸ hparts⟩

/-- A tag starts in front of a reference with characters behind it only if one starts there without
them. -/
theorem Starts.of_insert (hk : k.filter isEndMark = []) (hopen : '<' ∉ k)
    (h : Starts (w ++ '&' :: (name ++ (k ++ z)))) : Starts (w ++ '&' :: (name ++ z)) := by
  obtain ⟨⟨slash, c, r, heq, hslash, halpha⟩, hcloses⟩ := h
  have hfront : '&' ∉ slash ++ [c] := by
    have hc : '&' ≠ c := (ne_of_class halpha (by decide)).symm
    rcases hslash with rfl | rfl <;> simp [hc]
  have hsplit : w ++ '&' :: (name ++ (k ++ z)) = (slash ++ [c]) ++ r := by
    simpa using heq
  obtain ⟨m, rfl, -⟩ := exists_eq_append_of_not_mem hsplit hfront
  refine ⟨⟨slash, c, m ++ '&' :: (name ++ z), by simp, hslash, halpha⟩, ?_⟩
  have hsame := closesSoon_insert hk hopen (slash ++ [c] ++ m ++ '&' :: name) z
  simp only [List.append_assoc, List.cons_append, List.nil_append] at hsame hcloses ⊢
  exact hsame.mp hcloses

end Parts

section Read

variable {w name slash tagName inner k z : Text} {tag : TagText}

/-- A tag has two angle brackets. -/
theorem two_le_size (tag : TagText) : 2 ≤ tag.size := by
  have hopening : '<'.utf8Size = 1 := rfl
  have hclosing : '>'.utf8Size = 1 := rfl
  simp only [size, toText, Text.size_append, Text.size_cons, Text.size_nil, hopening, hclosing]
  omega

theorem size_ofParts (h : slash = [] ∨ slash = ['/']) : (ofParts slash tagName inner).size =
    Text.size slash + Text.size tagName + Text.size inner + 2 := by
  have hopening : '<'.utf8Size = 1 := rfl
  have hclosing : '>'.utf8Size = 1 := rfl
  simp only [size, toText_ofParts h, Text.size_append, Text.size_cons, Text.size_nil, hopening,
    hclosing]
  omega

/-- When something other than a slash is inserted, a self-closing tag loses its slash if nothing
comes between the place and its closing bracket. -/
theorem kind_ofParts_insert (hlast : k.getLast? = some ';') : (ofParts slash tagName
    (w ++ (k ++ inner))).kind =
      if (ofParts slash tagName (w ++ inner)).kind = .selfClosing ∧ inner = [] then .opening
        else (ofParts slash tagName (w ++ inner)).kind := by
  rcases List.eq_nil_or_concat' inner with rfl | ⟨y, d, rfl⟩
  · have hlast' : (w ++ (k ++ [])).getLast? = some ';' := by
      rw [List.append_nil, List.getLast?_append, hlast]
      rfl
    rw [kind_ofParts, kind_ofParts, hlast']
    by_cases hslash : slash = []
    · simp [hslash]
    · simp [hslash]
  · have hlast' : (w ++ (k ++ (y ++ [d]))).getLast? = (w ++ (y ++ [d])).getLast? := by
      rw [← List.append_assoc, ← List.append_assoc, ← List.append_assoc, List.getLast?_concat,
        List.getLast?_concat]
    rw [if_neg (by simp), kind_ofParts, kind_ofParts, hlast']

/-- What becomes of the tag that starts in front of a reference when characters that decide no end
are put behind the name of the reference. -/
theorem outline_read?_insert (hname : ∀ c ∈ name, isEntityNameChar c = true)
    (hk : k.filter isEndMark = []) (hopen : '<' ∉ k) (hlast : k.getLast? = some ';')
    (index index' : LineIndex) (o o' : Nat) :
    (read? (w ++ '&' :: (name ++ (k ++ z)))).map
        (fun tag => (TagToken.ofText index' (o', tag)).outline) =
      (read? (w ++ '&' :: (name ++ z))).map fun tag => (TagToken.ofText index (o, tag)).outlineCut
        (o + Text.size ('<' :: (w ++ '&' :: name))) := by
  have hbracket : '<'.utf8Size = 1 := rfl
  have hamp : '&'.utf8Size = 1 := rfl
  cases hread : read? (w ++ '&' :: (name ++ z)) with
  | none =>
      cases hread' : read? (w ++ '&' :: (name ++ (k ++ z))) with
      | none => rfl
      | some tag' =>
          obtain ⟨_, _, _, _, hparts⟩ := ((starts_of_read? hread').of_insert hk hopen).exists_parts
          rw [hparts.read?_eq] at hread
          cases hread
  | some tag =>
      obtain ⟨slash, tagName, inner, rest, hparts⟩ := (starts_of_read? hread).exists_parts
      obtain rfl := Option.some.inj (hread.symm.trans hparts.read?_eq)
      rw [Option.map_some, TagToken.outlineCut_ofText]
      rcases hparts.insert hname hk hopen with ⟨v, rest', hw, hparts'⟩ | ⟨v, y, hw, rfl, hparts'⟩
      · have hsize : o + Text.size ('<' :: (w ++ '&' :: name)) + 1 ≠
            o + (ofParts slash tagName inner).size := by
          rw [size_ofParts hparts.slash, hw]
          simp only [Text.size_append, Text.size_cons, hbracket, hamp]
          omega
        rw [hparts'.read?_eq, Option.map_some, TagToken.outline_ofText, if_neg fun h => hsize h.2]
      · have hsize : o + Text.size ('<' :: (w ++ '&' :: name)) + 1 =
            o + (ofParts slash tagName (v ++ '&' :: name ++ y)).size ↔ y = [] := by
          have hempty : Text.size y = 0 ↔ y = [] :=
            ⟨Text.eq_nil_of_size_eq_zero, by rintro rfl; rfl⟩
          rw [size_ofParts hparts.slash, hw, ← hempty]
          simp only [Text.size_append, Text.size_cons, hbracket]
          omega
        rw [hparts'.read?_eq, Option.map_some, TagToken.outline_ofText, kind_ofParts_insert hlast]
        simp only [hsize]
        rfl

end Read

section All

variable {name k z : Text} (index index' : LineIndex)

theorem all_cons (offset : Nat) (c : Char) (r : Text) : all offset (c :: r) =
    ((atStart? (c :: r)).map (offset, ·)).toList ++ all (offset + c.utf8Size) r := by
  rw [all]
  cases atStart? (c :: r) <;> rfl

/-- Tags that start at an offset or later do not end there. -/
theorem map_outlineCut_all {offset o : Nat} (h : offset ≤ o) (o' : Nat) (t : Text) :
    (all o' t).map (fun found => (TagToken.ofText index' found).outline) =
      (all o t).map fun found => (TagToken.ofText index found).outlineCut offset := by
  induction t generalizing o o' with
  | nil => rfl
  | cons c r ih =>
      rw [all_cons, all_cons, List.map_append, List.map_append,
        ih (Nat.le_trans h (Nat.le_add_right _ _))]
      congr 1
      cases atStart? (c :: r) with
      | none => rfl
      | some tag =>
          have hsize := tag.two_le_size
          have hlater : offset + 1 ≠ o + tag.size := by
            omega
          simp [TagToken.outline_ofText, TagToken.outlineCut_ofText, hlater]

/-- What becomes of the tags of a text when characters that decide no end are put behind the name of
a reference. -/
theorem map_outline_all_insert (hname : ∀ c ∈ name, isEntityNameChar c = true)
    (hk : k.filter isEndMark = []) (hopen : '<' ∉ k) (hlast : k.getLast? = some ';')
    (o o' : Nat) (u : Text) :
    (all o' (u ++ '&' :: (name ++ (k ++ z)))).map
        (fun found => (TagToken.ofText index' found).outline) =
      (all o (u ++ '&' :: (name ++ z))).map fun found =>
        (TagToken.ofText index found).outlineCut (o + Text.size (u ++ '&' :: name)) := by
  induction u generalizing o o' with
  | nil =>
      have hbracket : '<' ∉ '&' :: name := by
        simp [not_mem_of_class hname (by decide : isEntityNameChar '<' = false)]
      have hbracket' : '<' ∉ '&' :: name ++ k := by
        simpa [hopen] using hbracket
      have hnew : [] ++ '&' :: (name ++ (k ++ z)) = '&' :: name ++ k ++ z := by
        simp
      have hold : [] ++ '&' :: (name ++ z) = '&' :: name ++ z := rfl
      rw [hnew, hold, all_append_of_not_mem hbracket', all_append_of_not_mem hbracket]
      exact map_outlineCut_all index index' (Nat.le_refl _) _ z
  | cons c u ih =>
      have hlater := ih (o + c.utf8Size) (o' + c.utf8Size)
      rw [Nat.add_assoc o, ← Text.size_cons] at hlater
      rw [List.cons_append, List.cons_append, List.cons_append]
      by_cases hc : c = '<'
      · subst hc
        have hread := outline_read?_insert (w := u) (z := z) hname hk hopen hlast index index' o o'
        rw [all_cons, all_cons o, List.map_append, List.map_append, hlater]
        congr 1
        simpa [atStart?, Option.toList_map, Function.comp_def] using congrArg Option.toList hread
      · have hskip : ∀ (o : Nat) (r : Text), all o (c :: r) = all (o + c.utf8Size) r :=
          fun o r => all_append_of_not_mem (w := [c]) (by simpa using Ne.symm hc) o r
        rw [hskip, hskip, hlater]

end All

end TagText

end MarkupRepair
