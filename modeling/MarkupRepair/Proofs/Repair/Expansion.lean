import MarkupRepair.Proofs.Repair.Anchors

/-!
# Expanding a self-closing tag at its anchor

The tag that expanding finds at its anchor is the one of the text as other fixes have left it. When
the scanned tag has no fault, only completed references have been put into it and into the text up
to the next tag, so the tag still ends at the same bracket. When it has one, the tag closes itself,
and so does what has become of it. Either way it is read as a self-closing tag of the same name, and
it may be exchanged for text with as many closing brackets.
-/

namespace MarkupRepair

/-- Where no tag may be changed, characters that complete no reference are kept. -/
theorem Confined.filter_of_apart {tags : List TagToken} {entities : List EntityToken} {o : Nat}
    {t w : Text} {p : Char → Bool} (h : Confined tags entities o t w)
    (hp : ∀ e : EntityToken, ∀ c ∈ e.completion, p c = false)
    (htags : ∀ tag ∈ tags, tag.span.stop ≤ o ∨ o + Text.size t ≤ tag.span.start) :
    w.filter p = t.filter p := by
  have hall : ∀ v : Text, v.takeWhile (fun _ => true) = v := fun v => by simp
  have hfilter := h.filter_takeWhile_of_apart (q := fun _ => true)
    (fun e c hc => ⟨hp e c hc, rfl⟩) (by simpa [hall] using htags)
  rwa [hall, hall] at hfilter

/-- A self-closing tag that was read ends at its own bracket. -/
theorem TagText.untilEnd_of_read? {tag : TagText} {r later : Text} (h : read? r = some tag)
    (hkind : tag.kind = .selfClosing) (hr : '<' :: r = tag.toText ++ later) :
    untilEnd none (tag.body ++ ['/'] ++ '>' :: later.takeWhile (· != '<')) = tag.body ++ ['/'] := by
  obtain ⟨hleading, htrailing⟩ := slashes_of_selfClosing hkind
  obtain ⟨hchars, c, s, hcons, halpha⟩ := name_of_read? h
  obtain ⟨w, htext, hw⟩ := exists_name_append h hleading
  have hbody := bracket_not_mem_body h
  have hw' : w = tag.body ++ ['/', '>'] := by
    simpa [toText, hleading, htrailing] using htext.symm
  have hr' : r = tag.name ++ (w ++ later) := by
    rw [htext] at hr
    simpa using hr
  obtain ⟨named, region, hnamed, -, -, rfl, huntil, -⟩ := exists_of_read? h
  have hsame : named = r := by
    refine hnamed.resolve_right fun hslash => ?_
    rw [hr', hcons, List.cons_append, List.cons.injEq] at hslash
    rw [hslash.1] at halpha
    cases halpha
  have hdrop : named.dropWhile isNameChar = w ++ later := by
    rw [hsame, hr', List.dropWhile_append_of_pos hchars]
    cases w with
    | nil => cases hw
    | cons d w =>
        have hd : isNameChar d = false := by
          simpa using hw
        rw [List.cons_append, List.dropWhile_cons_of_neg (by simp [hd])]
  have hplain : '<' ∉ tag.body ++ ['/', '>'] := by
    simp [hbody]
  rw [hdrop, hw', takeWhile_bne_append hplain, htrailing, if_pos rfl] at huntil
  simpa using huntil.symm

/-- The parts of a self-closing tag of a text. -/
theorem TagSite.selfClosing {t : Text} {tag : TagText} {u z front later : Text}
    (h : TagSite t tag u z front later) (hkind : tag.kind = .selfClosing) :
    tag.toText = '<' :: (tag.name ++ (tag.body ++ ['/', '>'])) ∧
      (∀ c ∈ tag.name, isNameChar c = true) ∧ tag.name.head?.any Char.isAlpha = true ∧
      (tag.body ++ ['/', '>']).head?.any (fun c => !isNameChar c) = true ∧ '<' ∉ tag.body := by
  obtain ⟨hleading, htrailing⟩ := TagText.slashes_of_selfClosing hkind
  obtain ⟨r, -, hread⟩ := h.read
  obtain ⟨hchars, c, s, hcons, halpha⟩ := TagText.name_of_read? hread
  obtain ⟨w, hw, hstop⟩ := TagText.exists_name_append hread hleading
  obtain rfl : w = tag.body ++ ['/', '>'] := by
    simpa [TagText.toText, hleading, htrailing] using hw.symm
  exact ⟨hw, hchars, by rw [hcons]; exact halpha, hstop, TagText.bracket_not_mem_body hread⟩

namespace Fix

variable {t : Text}

/-- Whether what other fixes have made of the text from a tag on begins with a self-closing tag of
the name, and that tag may be exchanged for text with as many closing brackets. -/
def Exchangeable (t : Text) (offset : Nat) (after name changed : Text) : Prop :=
  ∃ tag later, TagText.read? (name ++ changed) = some tag ∧ tag.kind = .selfClosing ∧
    tag.name = name ∧ '<' :: (name ++ changed) = tag.toText ++ later ∧
    ∀ back : Text, tag.toText.count '>' ≤ back.count '>' →
      Confined ((scan t).touched offset) (scan t).entities offset after ('<' :: (back ++ later))

section Changed

variable {tag : TagText} {u z front later changed : Text} (h : Anchored t)
  (hsite : TagSite t tag u z front later) (hkind : tag.kind = .selfClosing)
  (hcontainer : isContainer (Text.toLowerAscii tag.name) = true)
  (hchanged : Settled (scan t) (Text.size u + Text.size ('<' :: tag.name))
    (tag.body ++ ['/', '>'] ++ z) changed)
include h hsite hkind hcontainer hchanged

omit h hcontainer in
/-- What follows the name of a tag is still no part of the name. -/
theorem head?_changed : changed.head?.all (!isNameChar ·) = true := by
  obtain ⟨-, -, -, hstop, -⟩ := hsite.selfClosing hkind
  rw [hchanged.head]
  cases hbody : tag.body with
  | nil => rfl
  | cons c body =>
      rw [hbody] at hstop
      exact hstop

omit hkind hcontainer hchanged in
/-- No tag that fixes may change behind the name of a tag without a fault reaches into the tag or
into the text up to the next one. -/
theorem apart_of_not_hasFault
    (hfault : (TagToken.ofText (LineIndex.ofText t) (Text.size u, tag)).hasFault = false)
    {other : TagToken}
    (hother : other ∈ (scan t).touched (Text.size u + Text.size ('<' :: tag.name))) :
    other.span.stop ≤ Text.size u ∨
      Text.size u + Text.size tag.toText + Text.size (z.takeWhile (· != '<')) ≤
        other.span.start := by
  have hpos := '<'.utf8Size_pos
  exact h.apart_of_touched hsite hfault (by rw [Text.size_cons]; omega) hother

omit hchanged in
/-- The slash and the bracket at the end of a tag without a fault are kept. -/
theorem eq_end_of_not_hasFault
    (hfault : (TagToken.ofText (LineIndex.ofText t) (Text.size u, tag)).hasFault = false)
    {d : Text} (hend : Confined ((scan t).touched (Text.size u + Text.size ('<' :: tag.name)))
      (scan t).entities (Text.size u + Text.size ('<' :: tag.name) + Text.size tag.body)
      ['/', '>'] d) : d = ['/', '>'] := by
  obtain ⟨hw, -, -, -, -⟩ := hsite.selfClosing hkind
  have htwo : Text.size ['/', '>'] = 2 := rfl
  refine hend.eq_of_apart (fun other hother => ?_) fun e he hopen => ?_
  · have hsize : Text.size tag.toText =
        Text.size ('<' :: tag.name) + Text.size tag.body + Text.size ['/', '>'] := by
      rw [hw]
      simp [Nat.add_assoc]
    rcases apart_of_not_hasFault h hsite hfault hother with hbefore | hlater
    · exact Or.inl (by omega)
    · exact Or.inr (by omega)
  · have hdetached := h.detached _ (List.mem_map_of_mem hsite.found) hkind hcontainer e he hopen
    have htext : t = u ++ ('<' :: tag.name ++ tag.body ++ ['/']) ++ '>' :: z := by
      rw [hsite.text, hw]
      simp
    have hclosing := nameEnd_ne_of_closing he htext
    have hone : '/'.utf8Size = 1 := rfl
    have hone' : '>'.utf8Size = 1 := rfl
    simp only [TagToken.ofText, TagText.size, hw, Text.size_append, Text.size_cons, Text.size_nil]
      at hdetached hclosing htwo ⊢
    omega

omit hcontainer hchanged in
/-- The body of a tag without a fault keeps what completes no reference. -/
theorem filter_body_of_not_hasFault
    (hfault : (TagToken.ofText (LineIndex.ofText t) (Text.size u, tag)).hasFault = false)
    {b : Text} (hinner : Confined ((scan t).touched (Text.size u + Text.size ('<' :: tag.name)))
      (scan t).entities (Text.size u + Text.size ('<' :: tag.name)) tag.body b)
    {p : Char → Bool} (hp : ∀ e : EntityToken, ∀ c ∈ e.completion, p c = false) :
    b.filter p = tag.body.filter p := by
  obtain ⟨hw, -, -, -, -⟩ := hsite.selfClosing hkind
  have hsize : Text.size ('<' :: tag.name) + Text.size tag.body ≤ Text.size tag.toText := by
    rw [hw]
    simp only [Text.size_cons, Text.size_append]
    omega
  refine hinner.filter_of_apart hp fun other hother => ?_
  rcases apart_of_not_hasFault h hsite hfault hother with hbefore | hlater
  · exact Or.inl (by omega)
  · exact Or.inr (by omega)

/-- References are completed in the body of a tag without a fault and in the text up to the next
tag, and nothing else changes there. -/
theorem exists_parts_of_not_hasFault
    (hfault : (TagToken.ofText (LineIndex.ofText t) (Text.size u, tag)).hasFault = false) :
    ∃ b f, changed = b ++ '/' :: '>' :: f ∧ '<' ∉ b ∧
      b.filter TagText.isEndMark = tag.body.filter TagText.isEndMark ∧
      (f.takeWhile (· != '<')).filter TagText.isEndMark =
        (z.takeWhile (· != '<')).filter TagText.isEndMark ∧
      Confined ((scan t).touched (Text.size u)) (scan t).entities
        (Text.size u + Text.size tag.toText) z f := by
  obtain ⟨hw, -, -, -, hbody⟩ := hsite.selfClosing hkind
  have hsize : Text.size u + Text.size tag.toText = Text.size u + Text.size ('<' :: tag.name) +
      Text.size tag.body + Text.size ['/', '>'] := by
    rw [hw]
    simp [Nat.add_assoc]
  have hall := hchanged.confined
  rw [List.append_assoc] at hall
  obtain ⟨b, _, rfl, hinner, hrest⟩ := hall.exists_of_append
  obtain ⟨d, f, rfl, hend, hafter⟩ := hrest.exists_of_append
  obtain rfl := eq_end_of_not_hasFault h hsite hkind hcontainer hfault hend
  have hopening : '<' ∉ b := by
    intro hmem
    have hmem : '<' ∈ b.filter (· == '<') := List.mem_filter.mpr ⟨hmem, rfl⟩
    rw [filter_body_of_not_hasFault h hsite hkind hfault hinner
      fun e c hc => (e.not_mark_of_mem_completion hc).2] at hmem
    exact hbody (List.mem_filter.mp hmem).1
  have hmarks := filter_body_of_not_hasFault h hsite hkind hfault hinner
    fun e c hc => (e.not_mark_of_mem_completion hc).1
  rw [← hsize] at hafter
  have hregion : (f.takeWhile (· != '<')).filter TagText.isEndMark =
      (z.takeWhile (· != '<')).filter TagText.isEndMark := by
    refine hafter.filter_takeWhile_of_apart (fun e c hc => ?_) fun other hother => ?_
    · obtain ⟨hmark, hbracket⟩ := e.not_mark_of_mem_completion hc
      exact ⟨hmark, by simpa using hbracket⟩
    · exact (apart_of_not_hasFault h hsite hfault hother).imp_left
        fun hbefore => Nat.le_trans hbefore (Nat.le_add_right _ _)
  exact ⟨b, f, rfl, hopening, hmarks, hregion,
    hafter.mono ((scan t).touched_subset (Nat.le_add_right _ _))⟩

omit h hcontainer hchanged in
/-- A tag is read where it was when its name and its end are kept, and when so are the brackets and
the quotes of its body and of the text up to the next tag. -/
theorem read?_of_same_marks {b f : Text}
    (hhead : (b ++ '/' :: '>' :: f).head?.all (!isNameChar ·) = true) (hopening : '<' ∉ b)
    (hmarks : b.filter TagText.isEndMark = tag.body.filter TagText.isEndMark)
    (hregion : (f.takeWhile (· != '<')).filter TagText.isEndMark =
      (z.takeWhile (· != '<')).filter TagText.isEndMark) :
    TagText.read? (tag.name ++ (b ++ '/' :: '>' :: f)) = some ⟨false, tag.name, b, true⟩ := by
  obtain ⟨-, hchars, halpha, -, -⟩ := hsite.selfClosing hkind
  obtain ⟨r, hr, hread⟩ := hsite.read
  have hopening' : '<' ∉ b ++ ['/', '>'] := by
    simp [hopening]
  have hfront : (b ++ '/' :: '>' :: f).takeWhile (· != '<') =
      b ++ ['/'] ++ '>' :: f.takeWhile (· != '<') := by
    have happend : b ++ '/' :: '>' :: f = b ++ ['/', '>'] ++ f := by
      simp
    rw [happend, takeWhile_bne_append hopening']
    simp
  refine TagText.read?_selfClosing hchars halpha hhead ?_ ?_
  · rw [hfront]
    simp
  · rw [hfront]
    refine TagText.untilEnd_eq_of_marks (a := tag.body ++ ['/'])
      (r := later.takeWhile (· != '<')) ?_ ?_ rfl
      (TagText.untilEnd_of_read? hread hkind hr)
    · rw [List.filter_append, List.filter_append, hmarks]
    · rw [hregion]
      exact hsite.region.filter _

/-- A tag without a fault keeps the bracket at which it ends. -/
theorem exchangeable_of_not_hasFault
    (hfault : (TagToken.ofText (LineIndex.ofText t) (Text.size u, tag)).hasFault = false) :
    Exchangeable t (Text.size u) ('<' :: tag.name ++ (tag.body ++ ['/', '>'] ++ z)) tag.name
      changed := by
  obtain ⟨hw, -, -, -, -⟩ := hsite.selfClosing hkind
  obtain ⟨b, f, rfl, hopening, hmarks, hregion, hafter⟩ :=
    exists_parts_of_not_hasFault h hsite hkind hcontainer hchanged hfault
  have hread := read?_of_same_marks hsite hkind (head?_changed hsite hkind hchanged) hopening
    hmarks hregion
  refine ⟨_, f, hread, rfl, rfl, by simp [TagText.toText], fun back hback => ?_⟩
  have htouched :
      TagToken.ofText (LineIndex.ofText t) (Text.size u, tag) ∈ (scan t).touched (Text.size u) :=
    Scan.mem_touched_iff.mpr ⟨List.mem_map_of_mem hsite.found, Or.inr (Nat.le_refl _)⟩
  have hparts : '<' :: tag.name ++ (tag.body ++ ['/', '>'] ++ z) =
      '<' :: (tag.name ++ (tag.body ++ ['/', '>']) ++ z) := by
    simp
  have hcount : b.count '>' = tag.body.count '>' := by
    have hmark : TagText.isEndMark '>' = true := rfl
    rw [← List.count_filter hmark, hmarks, List.count_filter hmark]
  have hstart : Text.size u + '<'.utf8Size + Text.size (tag.name ++ (tag.body ++ ['/', '>'])) =
      Text.size u + Text.size tag.toText := by
    rw [hw, Text.size_cons, Nat.add_assoc]
  rw [hparts]
  have hpos := '<'.utf8Size_pos
  refine .kept '<' (Confined.append (.of_inTag htouched ?_ ?_ ?_ ?_) ?_)
  · exact Nat.lt_add_of_pos_right hpos
  · exact Nat.le_of_eq hstart
  · simp
  · refine Nat.le_trans (Nat.le_of_eq ?_) hback
    simp [TagText.toText, List.count_append, hcount]
  · rw [hstart]
    exact hafter

omit h hsite hkind hcontainer hchanged in
/-- What becomes of a tag with one closing bracket may be exchanged up to the first closing
bracket. -/
theorem confined_upTo {s : Scan} {token : TagToken} {o : Nat} {inner v rest upTo : Text}
    (h : Confined (s.touched o) s.entities o ('<' :: inner ++ rest) (upTo ++ '>' :: v))
    (htoken : token ∈ s.tags) (hstart : token.span.start = o)
    (hstop : o + Text.size ('<' :: inner) = token.span.stop) (hinner : inner.count '>' = 1)
    (hupTo : '>' ∉ upTo) {back : Text} (hback : 1 ≤ back.count '>') :
    Confined (s.touched o) s.entities o ('<' :: inner ++ rest) ('<' :: (back ++ v)) := by
  obtain ⟨v₁, v₂, hv, h₁, h₂⟩ := h.exists_of_append
  have hclosing : '>' ∈ inner := List.count_pos_iff.mp (by omega)
  obtain ⟨v, rfl, rfl⟩ := exists_of_append_eq hv.symm hupTo
    (h₁.closing_mem (List.mem_cons_of_mem _ hclosing))
  have htouched : token ∈ s.touched o :=
    Scan.mem_touched_iff.mpr ⟨htoken, Or.inr (Nat.le_of_eq hstart.symm)⟩
  have hpos := '<'.utf8Size_pos
  rw [← List.append_assoc, ← List.cons_append]
  refine Confined.append (.kept '<' (.of_inTag htouched ?_ ?_ (List.ne_nil_of_mem hclosing) ?_)) h₂
  · omega
  · rw [← hstop, Text.size_cons, Nat.add_assoc]
  · rw [hinner, List.count_append]
    omega

/-- A tag with a fault has one closing bracket, and what becomes of it still closes itself. -/
theorem closesItself_of_hasFault
    (hfault : (TagToken.ofText (LineIndex.ofText t) (Text.size u, tag)).hasFault = true) :
    (tag.name ++ (tag.body ++ ['/', '>'])).count '>' = 1 ∧ ClosesItself (tag.name ++ changed) := by
  obtain ⟨hw, hchars, -, -, hbody⟩ := hsite.selfClosing hkind
  obtain ⟨r, hr, hread⟩ := hsite.read
  have htoken := List.mem_map_of_mem (f := TagToken.ofText (LineIndex.ofText t)) hsite.found
  have hname : ∀ c : Char, isNameChar c = false → c ∉ tag.name := fun c hc =>
    not_mem_of_class hchars hc
  have hone := h.alone _ htoken hkind hcontainer hfault
  have hdrop : Text.dropBytes (Text.size u + 1) t = tag.name ++ (tag.body ++ ['/', '>'] ++ z) := by
    have hsize : Text.size u + 1 = Text.size (u ++ ['<']) := by
      rw [Text.size_append]
      rfl
    have hparts : t = u ++ ['<'] ++ (tag.name ++ (tag.body ++ ['/', '>'] ++ z)) := by
      rw [hsite.text, hw]
      simp
    rw [hsize, hparts, Text.dropBytes_size_append]
  have hplace : (TagToken.ofText (LineIndex.ofText t) (Text.size u, tag)).span.start =
      Text.size u := rfl
  rw [hplace, hdrop] at hone
  have hrest : '<' :: (tag.name ++ (tag.body ++ ['/', '>'] ++ z)) = tag.toText ++ z := by
    rw [hw]
    simp
  have hcloses : ClosesItself (tag.name ++ (tag.body ++ ['/', '>'] ++ z)) :=
    .of_read? hread hkind hrest hone
  have hplain : '<' ∉ tag.name ++ (tag.body ++ ['/', '>']) := by
    simp [hname '<' (by decide), hbody]
  rw [← List.append_assoc, takeWhile_bne_append hplain, List.count_append, List.count_append,
    List.count_append] at hone
  have hend : (['/', '>'] : Text).count '>' = 1 := rfl
  have hclosing : '>' ∉ tag.body ++ ['/'] := by
    have hbody : '>' ∉ tag.body := List.count_eq_zero.mp (by omega)
    simp [hbody]
  have hinner : (tag.name ++ (tag.body ++ ['/', '>'])).count '>' = 1 := by
    rw [List.count_append, List.count_append]
    omega
  refine ⟨hinner, hchanged.closesItself tag.name hcloses fun _ e he hopen => ?_⟩
  have hsplit : tag.body ++ ['/', '>'] ++ z = tag.body ++ ['/'] ++ '>' :: z := by
    simp
  have hdetached := h.detached _ htoken hkind hcontainer e he hopen
  rw [hsplit, takeWhile_bne_append_cons hclosing]
  simp only [TagToken.ofText, TagText.size, hw, Text.size_cons, Text.size_append, Text.size_nil]
    at hdetached ⊢
  have hbracket : '>'.utf8Size = 1 := rfl
  omega

/-- A tag with a fault that closes itself is read up to its closing bracket. -/
theorem exchangeable_of_hasFault
    (hfault : (TagToken.ofText (LineIndex.ofText t) (Text.size u, tag)).hasFault = true) :
    Exchangeable t (Text.size u) ('<' :: tag.name ++ (tag.body ++ ['/', '>'] ++ z)) tag.name
      changed := by
  obtain ⟨hw, hchars, halpha, -, -⟩ := hsite.selfClosing hkind
  obtain ⟨hinner, hstill⟩ := closesItself_of_hasFault h hsite hkind hcontainer hchanged hfault
  have htoken := List.mem_map_of_mem (f := TagToken.ofText (LineIndex.ofText t)) hsite.found
  obtain ⟨tag', hread', hname', hkind', htext'⟩ :=
    hstill.exists_read? hchars halpha (head?_changed hsite hkind hchanged)
  obtain ⟨later', hlater⟩ := TagText.exists_eq_of_read? hread'
  refine ⟨tag', later', hread', hkind', hname', hlater, fun back hback => ?_⟩
  have hupTo : '>' ∉ '<' :: (tag.name ++ changed).takeWhile (· != '>') := by
    intro hmem
    rcases List.mem_cons.mp hmem with heq | hmem
    · cases heq
    · simpa using List.mem_takeWhile_imp hmem
  have hall := (hchanged.append ('<' :: tag.name)).confined
  have hparts : '<' :: tag.name ++ (tag.body ++ ['/', '>'] ++ z) =
      '<' :: (tag.name ++ (tag.body ++ ['/', '>'])) ++ z := by
    simp
  have hparts' : '<' :: tag.name ++ changed =
      '<' :: (tag.name ++ changed).takeWhile (· != '>') ++ '>' :: later' := by
    rw [List.cons_append, hlater, htext']
    simp
  rw [hparts, hparts'] at hall
  rw [hparts]
  refine confined_upTo hall htoken rfl ?_ hinner hupTo (Nat.le_trans ?_ hback)
  · rw [← hw]
    rfl
  · rw [htext', ← List.cons_append, List.count_append]
    exact Nat.le_add_left _ _

end Changed

/-- Expanding is anchored at a self-closing tag of a container. -/
theorem exists_anchor_expandSelfClosing (h : Anchored t) {token : TagToken}
    (htoken : token ∈ (scan t).tags) (hkind : token.kind = .selfClosing)
    (hcontainer : isContainer token.name = true) :
    ∃ u x z, Anchor (.expandSelfClosing token.position token.name) t u x z := by
  obtain ⟨⟨place, tag⟩, hfound, rfl⟩ := List.mem_map.mp htoken
  obtain ⟨u, z, front, later, rfl, hsite⟩ := h.exists_tagSite hfound
  have hkind : tag.kind = .selfClosing := hkind
  obtain ⟨hw, hchars, -⟩ := hsite.selfClosing hkind
  have hparts : t = u ++ ('<' :: tag.name ++ (tag.body ++ ['/', '>'] ++ z)) := by
    rw [hsite.text, hw]
    simp
  have hposition : (LineIndex.ofText t).position (Text.size u) = Text.endPosition u := by
    rw [hparts, LineIndex.position_ofText_append]
  have hline : '\n' ∉ '<' :: tag.name := by
    simp [not_mem_of_class hchars (by decide : isNameChar '\n' = false)]
  refine ⟨u, '<' :: tag.name, tag.body ++ ['/', '>'] ++ z, hparts, ?_, ?_,
    fun changed hchanged => ?_⟩
  · rw [position?, ← hposition]
    rfl
  · refine fun other v y ht' _ _ => prefix_of_precedes hparts ht' hline ?_
    have hsize : Text.size (TagToken.ofText (LineIndex.ofText t) (Text.size u, tag)).name =
        Text.size tag.name := Text.size_toLowerAscii tag.name
    have hbracket : '<'.utf8Size = 1 := rfl
    rw [reach, hsize, Text.size_cons, hbracket, Nat.add_comm]
    exact Nat.le_max_left _ _
  · obtain ⟨tag', later', hread', hkind', hname', hlater, hconfined⟩ :
        Exchangeable t (Text.size u) ('<' :: tag.name ++ (tag.body ++ ['/', '>'] ++ z)) tag.name
          changed := by
      cases hfault : (TagToken.ofText (LineIndex.ofText t) (Text.size u, tag)).hasFault with
      | false => exact exchangeable_of_not_hasFault h hsite hkind hcontainer hchanged hfault
      | true => exact exchangeable_of_hasFault h hsite hkind hcontainer hchanged hfault
    have hstart : TagText.atStart? (tag'.toText ++ later') = some tag' := by
      rw [← hlater]
      exact hread'
    have hexpanded := expandAt_append hstart hkind' (by rw [hname', Text.toLowerAscii_toLowerAscii])
    rw [← hlater] at hexpanded
    refine ⟨_, hexpanded, ?_, rfl, fun l hl _ => hl.of_opening⟩
    obtain ⟨hleading, htrailing⟩ := TagText.slashes_of_selfClosing hkind'
    refine hconfined (tag'.name ++ trimEnd tag'.body ++ ['>', '<', '/'] ++ tag'.name ++ ['>']) ?_
    obtain ⟨blanks, hbody, hblanks⟩ := exists_trimEnd_append tag'.body
    have hnone : blanks.count '>' = 0 :=
      List.count_eq_zero.mpr (not_mem_of_class hblanks (by decide))
    have hcount : tag'.body.count '>' = (trimEnd tag'.body).count '>' := by
      nth_rewrite 1 [hbody]
      rw [List.count_append, hnone, Nat.add_zero]
    simp [TagText.toText, hleading, htrailing, hcount]

end Fix

end MarkupRepair
