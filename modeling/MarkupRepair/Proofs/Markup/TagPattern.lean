import MarkupRepair.Proofs.Markup.Grammar
import MarkupRepair.Proofs.Markup.Pattern

/-!
# The pattern of a tag

A tag can be given by a pattern that repeats a choice between a quoted stretch and a single
character as seldom as it can. Which quotes pair up then depends on what can be matched behind
them. Still the pattern matches where a tag starts by the grammar, and it matches the parts that
reading on from the name finds.
-/

namespace MarkupRepair

open TagText (ClosesSoon OpensQuoted ReadsOn Parts Starts bodyOf slashOf parted_append)

namespace Pattern

/-- A stretch between two quotes. -/
def quotedStretch (quote : Char) : Pattern :=
  both (char quote) (both (many (one fun c => c != quote && c != '<')) (char quote))

/-- What is passed over at once inside a tag: a quoted stretch, or else a single character. -/
def tagItem : Pattern :=
  either (quotedStretch '"') (either (quotedStretch '\'') (one fun c => c != '<' && c != '>'))

/-- A name of a tag. -/
def tagName : Pattern := both (one Char.isAlpha) (many (one isNameChar))

/-- The end of a tag. -/
def tagEnd : Pattern := both (group (optional (char '/'))) (char '>')

/-- A tag. -/
def tag : Pattern :=
  both (char '<') (both (group (optional (char '/')))
    (both (group tagName) (both (group (few tagItem)) tagEnd)))

variable {c quote : Char} {t w stretch past inner rest after slash name : Text} {x : Reading}

theorem first?_char (c : Char) (r : Text) : (char c).first? (c :: r) = some ⟨[], [c], r⟩ := by
  simp [first?, readings, char]

theorem first?_either (p q : Pattern) (t : Text) :
    (either p q).first? t = (p.first? t).or (q.first? t) := List.head?_append

section Quoted

/-- A quoted stretch is matched up to the first such quote. -/
theorem first?_quotedStretch (hquote : quote ∉ stretch) (hopen : '<' ∉ stretch) :
    (quotedStretch quote).first? (quote :: (stretch ++ quote :: past)) =
      some ⟨[], quote :: (stretch ++ [quote]), past⟩ := by
  have hchars : ∀ c ∈ stretch, (c != quote && c != '<') = true := by
    intro c hc
    rw [Bool.and_eq_true]
    exact ⟨bne_of_not_mem hquote c hc, bne_of_not_mem hopen c hc⟩
  have hstop : (quote != quote && quote != '<') = false := by simp
  have hmany := first?_many_one (fun c => c != quote && c != '<') (stretch ++ quote :: past)
  rw [takeWhile_append_cons hchars hstop, dropWhile_append_cons hchars hstop] at hmany
  exact first?_both_eq_some (first?_char ..) (first?_both_eq_some hmany (first?_char ..))

/-- Only a stretch from a quote to the first such quote is matched. -/
theorem exists_of_mem_quotedStretch (h : x ∈ (quotedStretch quote).readings t) :
    ∃ stretch, t = quote :: (stretch ++ quote :: x.rest) ∧ quote ∉ stretch ∧ '<' ∉ stretch := by
  obtain ⟨a, ha, y, hy, rfl⟩ := mem_both.mp h
  obtain ⟨b, hb, d, hd, rfl⟩ := mem_both.mp hy
  obtain ⟨c, r, rfl, hc, rfl⟩ := mem_one.mp ha
  obtain ⟨c', r', hr', hc', rfl⟩ := mem_one.mp hd
  obtain rfl := beq_iff_eq.mp hc
  obtain rfl := beq_iff_eq.mp hc'
  have hr : r = b.matched ++ c' :: r' := by
    rw [← hr']
    exact eq_append_of_mem hb
  exact ⟨b.matched, congrArg (c' :: ·) hr, not_mem_matched (by simp [Spares]) hb,
    not_mem_matched (by simp [Spares]) hb⟩

/-- A quote that opens a quoted stretch is matched with the stretch. -/
theorem first?_tagItem (h : OpensQuoted quote (stretch ++ quote :: past))
    (hquote : quote ∉ stretch) (hopen : '<' ∉ stretch) :
    tagItem.first? (quote :: (stretch ++ quote :: past)) =
      some ⟨[], quote :: (stretch ++ [quote]), past⟩ := by
  have hstretch : (quotedStretch quote).first? (quote :: (stretch ++ quote :: past)) =
      some ⟨[], quote :: (stretch ++ [quote]), past⟩ := first?_quotedStretch hquote hopen
  rcases h.1 with rfl | rfl
  · rw [tagItem, first?_either, hstretch, Option.some_or]
  · have hnone : (quotedStretch '"').first? ('\'' :: (stretch ++ '\'' :: past)) = none := by
      refine first?_eq_none_iff.mpr fun x hx => ?_
      obtain ⟨_, hcons, -⟩ := exists_of_mem_quotedStretch hx
      exact absurd (List.cons.inj hcons).1 (by decide)
    rw [tagItem, first?_either, hnone, Option.none_or, first?_either, hstretch, Option.some_or]

/-- Characters that open no quoted stretch are matched singly at last. -/
theorem readings_tagItem (c : Char) (t : Text) (hopen : c ≠ '<') (hclose : c ≠ '>') :
    ∃ quoted, tagItem.readings (c :: t) = quoted ++ [⟨[], [c], t⟩] ∧
      ∀ x ∈ quoted, ∃ stretch, t = stretch ++ c :: x.rest ∧ c ∉ stretch ∧ '<' ∉ stretch ∧
        (c = '"' ∨ c = '\'') := by
  have hsingle : readings (one fun c => c != '<' && c != '>') (c :: t) = [⟨[], [c], t⟩] :=
    if_pos (by simp [hopen, hclose])
  refine ⟨(quotedStretch '"').readings (c :: t) ++ (quotedStretch '\'').readings (c :: t), ?_, ?_⟩
  · rw [tagItem, readings, readings, hsingle, List.append_assoc]
  · intro x hx
    rcases List.mem_append.mp hx with hx | hx <;>
      obtain ⟨stretch, hcons, hquote, hstretch⟩ := exists_of_mem_quotedStretch hx <;>
      obtain ⟨rfl, rfl⟩ := List.cons.inj hcons
    · exact ⟨stretch, rfl, hquote, hstretch, Or.inl rfl⟩
    · exact ⟨stretch, rfl, hquote, hstretch, Or.inr rfl⟩

end Quoted

section End

/-- A tag ends at a `>`, or at a slash and a `>`. -/
theorem exists_of_mem_tagEnd (h : x ∈ tagEnd.readings t) :
    ∃ slash, (slash = [] ∨ slash = ['/']) ∧ t = slash ++ '>' :: x.rest ∧
      x = ⟨[slash], slash ++ ['>'], x.rest⟩ := by
  obtain ⟨y, hy, z, hz, rfl⟩ := mem_both.mp h
  obtain ⟨s, hs, rfl⟩ := mem_group.mp hy
  obtain ⟨c, r, hr, hc, rfl⟩ := mem_one.mp hz
  obtain rfl := beq_iff_eq.mp hc
  have hr' : s.rest = '>' :: r := hr
  rcases mem_either.mp hs with hs | hs
  · obtain ⟨c, _, rfl, hc, rfl⟩ := mem_one.mp hs
    obtain rfl := beq_iff_eq.mp hc
    exact ⟨['/'], Or.inr rfl, congrArg ('/' :: ·) hr', rfl⟩
  · rw [mem_nothing.mp hs] at hr' ⊢
    exact ⟨[], Or.inl rfl, hr', rfl⟩

theorem first?_tagEnd_eq_none (hend : ∀ r, t ≠ '>' :: r) (hslash : ∀ r, t ≠ '/' :: '>' :: r) :
    tagEnd.first? t = none := by
  refine first?_eq_none_iff.mpr fun x hx => ?_
  obtain ⟨slash, rfl | rfl, rfl, -⟩ := exists_of_mem_tagEnd hx
  · exact hend _ rfl
  · exact hslash _ rfl

end End

section Body

/-- The end of a tag behind a reading of what is passed over, in front of which `w` has been passed
over as well. -/
def finish (w : Text) (x : Reading) : Option Reading :=
  (tagEnd.first? x.rest).map (⟨[], w ++ x.matched, x.rest⟩ : Reading).asGroup.followedBy

theorem finish_append (w y : Text) :
    (fun x : Reading => finish w ⟨[], y ++ x.matched, x.rest⟩) = finish (w ++ y) := by
  funext x
  simp [finish, List.append_assoc]

/-- Nothing is matched when no `>` comes soon. -/
theorem findSome?_finish_eq_none (h : ¬ ClosesSoon t) (w : Text) :
    ((few tagItem).readings t).findSome? (finish w) = none := by
  rw [List.findSome?_eq_none_iff]
  intro x hx
  rw [finish, Option.map_eq_none_iff, first?_eq_none_iff]
  intro y hy
  obtain ⟨slash, hslash, hrest, -⟩ := exists_of_mem_tagEnd hy
  refine h ⟨x.matched ++ slash, y.rest, ?_, ?_⟩
  · rw [eq_append_of_mem hx, hrest, List.append_assoc]
  · have hmatched : '<' ∉ x.matched :=
      not_mem_matched (p := few tagItem) (by simp [Spares, tagItem, quotedStretch, char]) hx
    rcases hslash with rfl | rfl <;> simpa using hmatched

/-- Nothing is finished in front of anything but an end. -/
theorem finish_eq_none (hend : ∀ r, t ≠ '>' :: r) (hslash : ∀ r, t ≠ '/' :: '>' :: r) (w : Text) :
    finish w ⟨[], [], t⟩ = none := by
  rw [finish, first?_tagEnd_eq_none hend hslash, Option.map_none]

/-- A `>` ends the tag at once. -/
theorem findSome?_finish_ends (w rest : Text) :
    ((few tagItem).readings ('>' :: rest)).findSome? (finish w) =
      some ⟨[w, []], w ++ ['>'], rest⟩ := by
  rw [findSome?_few]
  simp [finish, tagEnd, first?, readings, optional, char, Reading.asGroup, Reading.followedBy]

/-- A slash in front of a `>` belongs to the end of the tag. -/
theorem findSome?_finish_slash (w rest : Text) :
    ((few tagItem).readings ('/' :: '>' :: rest)).findSome? (finish w) =
      some ⟨[w, ['/']], w ++ ['/', '>'], rest⟩ := by
  rw [findSome?_few]
  simp [finish, tagEnd, first?, readings, optional, char, Reading.asGroup, Reading.followedBy]

/-- What is matched behind a quoted stretch is matched with the stretch passed over. -/
theorem findSome?_finish_quoted (hopens : OpensQuoted quote (stretch ++ quote :: past))
    (hstretch : quote ∉ stretch)
    (h : ((few tagItem).readings past).findSome? (finish (w ++ quote :: (stretch ++ [quote]))) =
      some x) :
    ((few tagItem).readings (quote :: (stretch ++ quote :: past))).findSome? (finish w) =
      some x := by
  obtain ⟨hopen, -⟩ := hopens.closesSoon hstretch
  obtain ⟨l, hl⟩ := List.head?_eq_some_iff.mp (first?_tagItem hopens hstretch hopen)
  have hend : quote ≠ '>' ∧ quote ≠ '/' := by
    rcases hopens.1 with rfl | rfl <;> decide
  have hstop : finish w ⟨[], [], quote :: (stretch ++ quote :: past)⟩ = none :=
    finish_eq_none (fun _ hr => hend.1 (List.cons.inj hr).1)
      (fun _ hr => hend.2 (List.cons.inj hr).1) w
  rw [findSome?_few, hstop, Option.none_or, hl, List.findSome?_cons, if_pos (by simp; omega),
    finish_append, h]

/-- A character that opens no quoted stretch and belongs to no end is passed over. The quoted
stretches from it are tried first, and no end comes soon behind any of them. -/
theorem findSome?_finish_single (hopen : c ≠ '<') (hclose : c ≠ '>')
    (hslash : ¬(c = '/' ∧ ∃ r, t = '>' :: r)) (hopens : ¬ OpensQuoted c t) :
    ((few tagItem).readings (c :: t)).findSome? (finish w) =
      ((few tagItem).readings t).findSome? (finish (w ++ [c])) := by
  have hstop : finish w ⟨[], [], c :: t⟩ = none := by
    refine finish_eq_none (fun r hr => hclose (List.cons.inj hr).1) (fun r hr => ?_) w
    obtain ⟨hc, ht⟩ := List.cons.inj hr
    exact hslash ⟨hc, r, ht⟩
  obtain ⟨quoted, hread, hquoted⟩ := readings_tagItem c t hopen hclose
  have hnone : quoted.findSome? (fun x => if x.rest.length < (c :: t).length then
      ((few tagItem).readings x.rest).findSome? fun y =>
        finish w ⟨[], x.matched ++ y.matched, y.rest⟩ else none) = none := by
    rw [List.findSome?_eq_none_iff]
    intro x hx
    obtain ⟨stretch, heq, hstretch, hopen, hc⟩ := hquoted x hx
    rw [finish_append, findSome?_finish_eq_none, ite_self]
    exact fun hsoon => hopens ⟨hc, stretch, x.rest, heq, hstretch, hopen, hsoon⟩
  rw [findSome?_few, hstop, Option.none_or, hread, List.findSome?_append, hnone,
    Option.none_or, List.findSome?_singleton, if_pos (by simp), finish_append]

/-- What is passed over is matched up to the `>` that reading on ends at. -/
theorem findSome?_finish (h : ReadsOn t inner rest) (ht : ClosesSoon t) (w : Text) :
    ((few tagItem).readings t).findSome? (finish w) =
      some ⟨[w ++ bodyOf inner, slashOf inner], w ++ inner ++ ['>'], rest⟩ := by
  induction h generalizing w with
  | ends rest =>
      rw [findSome?_finish_ends]
      simp [bodyOf, slashOf]
  | @quoted quote stretch past inner rest hopens hstretch _ ih =>
      have hlast : (quote :: (stretch ++ [quote])).getLast? ≠ some '/' := by
        rw [← List.cons_append, List.getLast?_concat]
        rcases hopens.1 with rfl | rfl <;> decide
      obtain ⟨hbody, hslash⟩ := @parted_append inner _ (Or.inr hlast)
      have hinner : quote :: (stretch ++ quote :: inner) =
          quote :: (stretch ++ [quote]) ++ inner := by
        simp
      rw [findSome?_finish_quoted hopens hstretch (ih (hopens.closesSoon hstretch).2 _), hinner,
        hbody, hslash]
      simp
  | @single c t inner rest hclose hopens hreads ih =>
      by_cases hslash : c = '/' ∧ ∃ r, t = '>' :: r
      · obtain ⟨rfl, r, rfl⟩ := hslash
        cases hreads with
        | ends =>
            rw [findSome?_finish_slash]
            simp [bodyOf, slashOf]
        | quoted hquoted => exact absurd hquoted.1 (by decide)
        | single hend => exact absurd rfl hend
      · have hlast : inner ≠ [] ∨ [c].getLast? ≠ some '/' := by
          rw [← not_and_or]
          rintro ⟨rfl, hc⟩
          exact hslash ⟨by simpa using hc, rest, hreads.eq_append⟩
        obtain ⟨hbody, hend⟩ := parted_append hlast
        have hinner : c :: inner = [c] ++ inner := rfl
        rw [findSome?_finish_single ht.ne hclose hslash hopens,
          ih ((TagText.closesSoon_cons ht.ne hclose).mp ht), hinner, hbody, hend]
        simp

end Body

section Tag

/-- Where a tag starts by the grammar, the pattern matches its parts. -/
theorem first?_tag (h : Parts after slash name inner rest) : tag.first? ('<' :: after) =
    some ⟨[slash, name, bodyOf inner, slashOf inner],
      '<' :: (slash ++ (name ++ (inner ++ ['>']))), rest⟩ := by
  obtain ⟨d, r, hr, hd⟩ := h.exists_stop
  obtain ⟨rfl, hslash, halpha, hchars, -, hcloses, hreads⟩ := h
  obtain ⟨c, s, rfl⟩ := List.exists_cons_of_ne_nil (l := name) (by rintro rfl; cases halpha)
  have hc : c.isAlpha = true := halpha
  have hopening : (group (optional (char '/'))).first?
      (slash ++ (c :: s ++ (inner ++ '>' :: rest))) =
        some ⟨[slash], slash, c :: s ++ (inner ++ '>' :: rest)⟩ := by
    rcases hslash with rfl | rfl
    · have hne : c ≠ '/' := ne_of_class hc (by decide)
      simp [first?, optional, readings, char, hne, Reading.asGroup]
    · simp [first?_group, optional, first?_either, first?_char, Reading.asGroup]
  have hname : (group tagName).first? (c :: s ++ (inner ++ '>' :: rest)) =
      some ⟨[c :: s], c :: s, inner ++ '>' :: rest⟩ := by
    have hletter : (one Char.isAlpha).first? (c :: s ++ (inner ++ '>' :: rest)) =
        some ⟨[], [c], s ++ (inner ++ '>' :: rest)⟩ := by
      simp [first?, readings, hc]
    have hmany := first?_many_one isNameChar (s ++ (inner ++ '>' :: rest))
    have hs : ∀ c ∈ s, isNameChar c = true := fun c hc => hchars c (List.mem_cons_of_mem _ hc)
    rw [hr, takeWhile_append_cons hs hd, dropWhile_append_cons hs hd, ← hr] at hmany
    rw [first?_group, tagName, first?_both_eq_some hletter hmany]
    rfl
  have hend : (both (group (few tagItem)) tagEnd).first? (inner ++ '>' :: rest) =
      some ⟨[bodyOf inner, slashOf inner], inner ++ ['>'], rest⟩ := by
    rw [first?_both, readings, List.findSome?_map]
    exact findSome?_finish hreads hcloses []
  exact first?_both_eq_some (first?_char ..)
    (first?_both_eq_some hopening (first?_both_eq_some hname hend))

/-- Where no tag starts, the pattern matches nothing. -/
theorem first?_tag_eq_none (h : ¬ Starts after) : tag.first? ('<' :: after) = none := by
  refine first?_eq_none_iff.mpr fun x hx => h ?_
  obtain ⟨a, ha, y, hy, -⟩ := mem_both.mp hx
  obtain ⟨_, _, hcons, -, rfl⟩ := mem_one.mp ha
  obtain ⟨-, rfl⟩ := List.cons.inj hcons
  have hopen : '<' ∉ y.matched := by
    refine not_mem_matched ?_ hy
    have hname : isNameChar '<' = false := by decide
    simp [Spares, tagName, tagItem, tagEnd, quotedStretch, optional, char, hname]
  have hafter : after = y.matched ++ y.rest := eq_append_of_mem hy
  obtain ⟨s, hs, z, hz, rfl⟩ := mem_both.mp hy
  obtain ⟨n, hn, v, hv, rfl⟩ := mem_both.mp hz
  obtain ⟨b, -, e, he, rfl⟩ := mem_both.mp hv
  obtain ⟨last, hlast, -, heq⟩ := exists_of_mem_tagEnd he
  constructor
  · obtain ⟨letters, hletters, rfl⟩ := mem_group.mp hn
    obtain ⟨f, hf, more, -, rfl⟩ := mem_both.mp hletters
    obtain ⟨c, r, -, hc, rfl⟩ := mem_one.mp hf
    have hslash : s.matched = [] ∨ s.matched = ['/'] := by
      obtain ⟨o, ho, rfl⟩ := mem_group.mp hs
      rcases mem_either.mp ho with ho | ho
      · obtain ⟨c, _, -, hc, rfl⟩ := mem_one.mp ho
        exact Or.inr (congrArg ([·]) (beq_iff_eq.mp hc))
      · exact Or.inl (mem_nothing.mp ho ▸ rfl)
    refine ⟨s.matched, c, more.matched ++ (b.matched ++ e.matched) ++ e.rest, ?_, hslash, hc⟩
    rw [hafter]
    simp [Reading.followedBy, Reading.asGroup]
  · refine ⟨s.matched ++ (n.matched ++ (b.matched ++ last)), e.rest, ?_, fun hmem => hopen ?_⟩
    · rw [hafter, heq]
      simp [Reading.followedBy]
    · rw [heq]
      simp only [Reading.followedBy, List.mem_append] at hmem ⊢
      tauto

/-- The pattern matches the tag that a text begins with. -/
theorem first?_tag_of_atStart? {found : TagText} (h : TagText.atStart? t = some found) :
    ∃ rest, t = found.toText ++ rest ∧
      tag.first? t = some ⟨found.groups, found.toText, rest⟩ := by
  obtain ⟨after, rfl, hread⟩ := TagText.exists_read?_of_atStart? h
  obtain ⟨slash, name, inner, rest, hparts⟩ := (TagText.starts_of_read? hread).exists_parts
  rw [hparts.read?_eq, Option.some.injEq] at hread
  subst hread
  rw [TagText.toText_ofParts hparts.slash, TagText.groups_ofParts hparts.slash,
    first?_tag hparts]
  refine ⟨rest, ?_, rfl⟩
  rw [hparts.eq]
  simp

/-- The pattern matches nothing where no tag is read. -/
theorem first?_tag_of_atStart?_eq_none (h : TagText.atStart? t = none) : tag.first? t = none := by
  by_cases hopen : ∃ after, t = '<' :: after
  · obtain ⟨after, rfl⟩ := hopen
    refine first?_tag_eq_none fun hstarts => ?_
    obtain ⟨slash, name, inner, rest, hparts⟩ := hstarts.exists_parts
    rw [TagText.atStart?, hparts.read?_eq] at h
    cases h
  · refine first?_eq_none_iff.mpr fun x hx => hopen ?_
    obtain ⟨a, ha, -⟩ := mem_both.mp hx
    obtain ⟨c, r, rfl, hc, -⟩ := mem_one.mp ha
    exact ⟨r, by rw [beq_iff_eq.mp hc]⟩

/-- The matches of the pattern in a text are the tags of the text. -/
theorem occurrences_tag (offset : Nat) (t : Text) :
    (tag.occurrences offset 0 t).map (fun (o, x) => (o, x.groups)) =
      (TagText.all offset t).map fun (o, found) => (o, found.groups) := by
  induction hn : t.length using Nat.strongRecOn generalizing offset t with
  | ind n ih =>
      cases t with
      | nil => rfl
      | cons c r =>
          cases hstart : TagText.atStart? (c :: r) with
          | none =>
              rw [occurrences, first?_tag_of_atStart?_eq_none hstart, TagText.all, hstart]
              exact ih r.length (by simp [← hn]) _ _ rfl
          | some found =>
              obtain ⟨after, hcons, hread⟩ := TagText.exists_read?_of_atStart? hstart
              obtain ⟨rest, hparts, hfirst⟩ := first?_tag_of_atStart? hstart
              obtain ⟨w, htext, hopen⟩ : ∃ w, found.toText = '<' :: w ∧ '<' ∉ w :=
                ⟨found.toText.tail, rfl, TagText.bracket_not_mem_toText_tail hread⟩
              obtain ⟨rfl, rfl⟩ := List.cons.inj hcons
              rw [htext, List.cons_append] at hparts
              obtain rfl := (List.cons.inj hparts).2
              have htags := TagText.all_append_of_atStart? hopen hstart offset
              rw [List.cons_append] at htags
              rw [occurrences, hfirst, htext, htags, Text.size_cons, ← Nat.add_assoc]
              dsimp only
              rw [List.length_cons, Nat.add_sub_cancel, occurrences_length_append, List.map_cons,
                List.map_cons, ih rest.length (by simp [← hn]) _ _ rfl]

end Tag

end Pattern

namespace TagText

/-- The tag whose groups a match of the pattern holds. -/
def ofGroups? : List Text → Option TagText
  | [slash, name, body, last] => some ⟨!slash.isEmpty, name, body, !last.isEmpty⟩
  | _ => none

@[simp] theorem ofGroups?_groups (found : TagText) : ofGroups? found.groups = some found := by
  obtain ⟨leading, name, body, trailing⟩ := found
  cases leading <;> cases trailing <;> rfl

/-- A tag is found wherever one starts. -/
theorem exists_mem_all {before after : Text} (h : Starts after) (offset : Nat) :
    ∃ found, (offset + Text.size before, found) ∈ all offset (before ++ '<' :: after) := by
  induction before generalizing offset with
  | nil =>
      obtain ⟨slash, name, inner, rest, hparts⟩ := h.exists_parts
      refine ⟨ofParts slash name inner, ?_⟩
      rw [List.nil_append, all, atStart?, hparts.read?_eq]
      exact List.mem_cons_self
  | cons c before ih =>
      obtain ⟨found, hfound⟩ := ih (offset + c.utf8Size)
      refine ⟨found, ?_⟩
      rw [Text.size_cons, ← Nat.add_assoc, List.cons_append, all]
      split
      next => exact List.mem_cons_of_mem _ hfound
      next => exact hfound

end TagText

/-- A scanned tag has its place, its name and its kind from given parts. -/
structure TagToken.HasParts (tag : TagToken) (before slash name inner : Text) : Prop where
  /-- The tag starts at its `<`. -/
  start : tag.span.start = Text.size before
  /-- The tag stops behind its `>`. -/
  stop : tag.span.stop =
    Text.size before + Text.size ('<' :: (slash ++ (name ++ (inner ++ ['>']))))
  /-- A slash behind the `<` makes a closing tag, and else one in front of the `>` a self-closing
  one. -/
  kind : tag.kind = if slash ≠ [] then .closing
    else if (name ++ inner).getLast? = some '/' then .selfClosing else .opening
  /-- The name is written in small letters. -/
  name : tag.name = Text.toLowerAscii name

/-- A tag read from its parts has them in the scan. -/
theorem TagToken.hasParts_ofText {index : LineIndex} {after slash name inner rest : Text}
    (before : Text) (h : TagText.Parts after slash name inner rest) :
    (TagToken.ofText index (Text.size before, TagText.ofParts slash name inner)).HasParts
      before slash name inner := by
  refine ⟨rfl, ?_, ?_, rfl⟩
  · exact congrArg (Text.size before + Text.size ·) (TagText.toText_ofParts h.slash)
  · have hname : '/' ∉ name := not_mem_of_class h.nameChars (by decide)
    have hlast : (name ++ inner).getLast? = some '/' ↔ inner.getLast? = some '/' := by
      rcases List.eq_nil_or_concat' inner with rfl | ⟨front, d, rfl⟩
      · rw [List.append_nil, List.getLast?_nil]
        exact iff_of_false (fun hmem => hname (List.mem_of_getLast? hmem)) (by simp)
      · rw [← List.append_assoc, List.getLast?_concat, List.getLast?_concat]
    exact (TagText.kind_ofParts slash name inner).trans (by simp only [hlast])

/-- A scan finds exactly the tags of the grammar: one at each place where a tag starts, in the order
of the places, each with the parts that its text has. They are the matches of the pattern of a tag
in the masked text. -/
theorem scan_tags_grammar (t : Text) :
    ((scan t).tags.map (·.span.start)).Pairwise (· < ·) ∧
    (∀ offset, offset ∈ (scan t).tags.map (·.span.start) ↔ ∃ before after,
      mask t = before ++ '<' :: after ∧ offset = Text.size before ∧ TagText.Starts after) ∧
    (∀ tag ∈ (scan t).tags, ∃ before after slash name inner rest,
      mask t = before ++ '<' :: after ∧ TagText.Parts after slash name inner rest ∧
        tag.HasParts before slash name inner) ∧
    (scan t).tags = (Pattern.tag.occurrences 0 0 (mask t)).filterMap fun (offset, x) =>
      (TagText.ofGroups? x.groups).map fun found =>
        TagToken.ofText (LineIndex.ofText t) (offset, found) := by
  refine ⟨?_, fun offset => ⟨fun h => ?_, ?_⟩, fun tag htag => ?_, ?_⟩
  · simpa [scan, List.pairwise_map, TagToken.ofText] using TagText.pairwise_all 0 (mask t)
  · obtain ⟨tag, htag, rfl⟩ := List.mem_map.mp h
    obtain ⟨before, after, found, hmask, hread, rfl⟩ := exists_of_mem_tags htag
    exact ⟨before, after, hmask, rfl, TagText.starts_of_read? hread⟩
  · rintro ⟨before, after, hmask, rfl, hstarts⟩
    obtain ⟨found, hfound⟩ := @TagText.exists_mem_all before _ hstarts 0
    rw [← hmask, Nat.zero_add] at hfound
    exact List.mem_map.mpr ⟨_, List.mem_map_of_mem hfound, rfl⟩
  · obtain ⟨before, after, found, hmask, hread, rfl⟩ := exists_of_mem_tags htag
    obtain ⟨slash, name, inner, rest, hparts⟩ := (TagText.starts_of_read? hread).exists_parts
    obtain rfl := Option.some.inj (hparts.read?_eq.symm.trans hread)
    exact ⟨before, after, slash, name, inner, rest, hmask, hparts,
      TagToken.hasParts_ofText before hparts⟩
  · set token := fun found : Nat × List Text => (TagText.ofGroups? found.2).map fun tag =>
      TagToken.ofText (LineIndex.ofText t) (found.1, tag)
    calc
      _ = ((TagText.all 0 (mask t)).map fun (o, found) => (o, found.groups)).filterMap token := by
        simp [scan, token, List.filterMap_map]
      _ = ((Pattern.tag.occurrences 0 0 (mask t)).map fun (o, x) => (o, x.groups)).filterMap
          token := by
        rw [Pattern.occurrences_tag]
      _ = _ := by
        rw [List.filterMap_map]
        rfl

end MarkupRepair
