import MarkupRepair.Proofs.Markup.SelfClosing
import MarkupRepair.Proofs.Markup.Landmarks
import MarkupRepair.Proofs.Markup.References
import MarkupRepair.Proofs.Repair.Confined
import MarkupRepair.Proofs.Repair.Place
import MarkupRepair.Proofs.Repair.Sources

/-!
# Texts that the fixes of a pass find again

A fix looks at the text as it is written, with what fixes before it in the pass have made of the
text after its place. It finds what it is meant for there when no section hides a part of a tag,
when no open reference in a value without quotes lies past the columns that quoting the value
claims, and when neither a completed reference nor a mended attribute moves the end of a
self-closing tag.
-/

namespace MarkupRepair

/-- Whether an attribute of the tag has a fault. -/
def TagToken.hasFault (tag : TagToken) : Bool := tag.attributes.any fun a => a.fault?.isSome

/-- Whether the fixes of a pass over a text find the text they are meant for at its place. -/
structure Anchored (t : Text) : Prop where
  /-- No section hides a part of a tag. -/
  unhidden : ∀ tag ∈ (scan t).tags, Text.slice t tag.span = Text.slice (mask t) tag.span
  /-- Quoting a value claims the columns of the open references in the value. -/
  claimed : ∀ tag ∈ (scan t).tags, ∀ a ∈ tag.attributes,
    a.quoting = .unquoted ∨ a.quoting = .unterminated → ∀ e ∈ (scan t).entities,
      e.terminated = false → a.span.start ≤ e.span.start → e.span.start < a.span.stop →
        e.position.line = a.position.line ∧ e.position.column <
          a.position.column + (Fix.quoteAttribute a.position a.name a.raw).reach
  /-- No open reference ends with the slash of a self-closing tag of a container. -/
  detached : ∀ tag ∈ (scan t).tags, tag.kind = .selfClosing → isContainer tag.name = true →
    ∀ e ∈ (scan t).entities, e.terminated = false → e.nameEnd + 1 ≠ tag.span.stop
  /-- After a self-closing tag of a container with a faulty attribute no other closing bracket comes
  before the next opening one. -/
  alone : ∀ tag ∈ (scan t).tags, tag.kind = .selfClosing → isContainer tag.name = true →
    tag.hasFault = true →
      ((Text.dropBytes (tag.span.start + 1) t).takeWhile (· != '<')).count '>' = 1

instance : DecidablePred Anchored := fun t =>
  decidable_of_iff
    ((∀ tag ∈ (scan t).tags, Text.slice t tag.span = Text.slice (mask t) tag.span) ∧
      (∀ tag ∈ (scan t).tags, ∀ a ∈ tag.attributes,
        a.quoting = .unquoted ∨ a.quoting = .unterminated → ∀ e ∈ (scan t).entities,
          e.terminated = false → a.span.start ≤ e.span.start → e.span.start < a.span.stop →
            e.position.line = a.position.line ∧ e.position.column <
              a.position.column + (Fix.quoteAttribute a.position a.name a.raw).reach) ∧
      (∀ tag ∈ (scan t).tags, tag.kind = .selfClosing → isContainer tag.name = true →
        ∀ e ∈ (scan t).entities, e.terminated = false → e.nameEnd + 1 ≠ tag.span.stop) ∧
      ∀ tag ∈ (scan t).tags, tag.kind = .selfClosing → isContainer tag.name = true →
        tag.hasFault = true →
          ((Text.dropBytes (tag.span.start + 1) t).takeWhile (· != '<')).count '>' = 1)
    ⟨fun ⟨unhidden, claimed, detached, alone⟩ => ⟨unhidden, claimed, detached, alone⟩,
      fun h => ⟨h.unhidden, h.claimed, h.detached, h.alone⟩⟩

/-- The tags that fixes from an offset on may have changed: those with a fault, and those that start
there or later. -/
def Scan.touched (s : Scan) (offset : Nat) : List TagToken :=
  s.tags.filter fun tag => tag.hasFault || offset ≤ tag.span.start

theorem Scan.mem_touched_iff {s : Scan} {offset : Nat} {tag : TagToken} : tag ∈ s.touched offset ↔
    tag ∈ s.tags ∧ (tag.hasFault = true ∨ offset ≤ tag.span.start) := by
  rw [touched, List.mem_filter, Bool.or_eq_true, decide_eq_true_eq]

theorem Scan.touched_subset (s : Scan) {o o' : Nat} (h : o ≤ o') : s.touched o' ⊆ s.touched o := by
  intro tag htag
  rw [mem_touched_iff] at htag ⊢
  exact htag.imp_right (Or.imp_right (Nat.le_trans h))

/-- Up to the next opening bracket a text goes no further than the masked text. -/
theorem Segment.WellCut.takeWhile_prefix {segments : List Segment} (h : Segment.WellCut segments) :
    (Segment.writtenAll segments).takeWhile (· != '<') <+:
      (Segment.maskedAll segments).takeWhile (· != '<') := by
  induction h with
  | nil => exact List.prefix_rfl
  | @plain c rest _ _ ih =>
      rw [Segment.maskedAll_plain_cons, Segment.writtenAll_plain_cons]
      by_cases hc : c = '<'
      · simp [hc]
      · have hne : (c != '<') = true := by
          simpa using hc
        rw [List.takeWhile_cons_of_pos (p := (· != '<')) hne,
          List.takeWhile_cons_of_pos (p := (· != '<')) hne]
        exact (List.prefix_cons_inj c).mpr ih
  | @hidden s rest hreads _ _ =>
      obtain ⟨w, rfl, -⟩ := Segment.exists_eq_cons_of_readsHidden hreads
      exact List.nil_prefix

section References

variable {t : Text}

/-- The ampersand of a scanned reference is plain. -/
theorem Segment.exists_plain_of_mem_entities {token : EntityToken}
    (h : token ∈ (scan t).entities) :
    ∃ l r, Segment.WellCut (l ++ Segment.plain '&' :: r) ∧
      t = Segment.writtenAll (l ++ Segment.plain '&' :: r) ∧
        token = EntityToken.ofText (LineIndex.ofText t)
          (Text.size (Segment.writtenAll l), EntityText.read (Segment.writtenAll r)) := by
  obtain ⟨a, b, hmask, rfl⟩ := exists_of_mem_entities h
  obtain ⟨segments, hcut, rfl, -⟩ := Segment.exists_wellCut t
  rw [hcut.mask_eq] at hmask
  obtain ⟨l, r, rfl, rfl, rfl⟩ := Segment.exists_plain_of_maskedAll hmask (by decide) (by decide)
  have hread : EntityText.read (Segment.maskedAll r) = EntityText.read (Segment.writtenAll r) := by
    cases hcut.of_append with
    | plain _ hrest => exact hrest.read_maskedAll
  exact ⟨l, r, hcut, rfl, by rw [hread, Segment.size_maskedAll]⟩

/-- A scanned reference stands in the text as it was read. -/
theorem exists_of_mem_entities_written {token : EntityToken} (h : token ∈ (scan t).entities) :
    ∃ u w, t = u ++ '&' :: w ∧
      token = EntityToken.ofText (LineIndex.ofText t) (Text.size u, EntityText.read w) := by
  obtain ⟨l, r, -, ht, htoken⟩ := Segment.exists_plain_of_mem_entities h
  exact ⟨Segment.writtenAll l, Segment.writtenAll r, by rw [ht, Segment.writtenAll_append]; rfl,
    htoken⟩

/-- No reference ends with a closing bracket. -/
theorem nameEnd_ne_of_closing {token : EntityToken} (h : token ∈ (scan t).entities) {u v : Text}
    (ht : t = u ++ '>' :: v) : token.nameEnd ≠ Text.size (u ++ ['>']) := by
  obtain ⟨a, b, ha, rfl⟩ := exists_of_mem_entities_written h
  intro hend
  have hname : ∀ c ∈ b.takeWhile isEntityNameChar, isEntityNameChar c = true :=
    fun c hc => List.mem_takeWhile_imp hc
  have hsplit : (u ++ ['>']) ++ v = (a ++ '&' :: b.takeWhile isEntityNameChar) ++
      b.dropWhile isEntityNameChar := by
    rw [List.append_assoc, List.append_assoc, List.singleton_append, ← ht, ha, List.cons_append,
      List.takeWhile_append_dropWhile]
  have hsize : Text.size (u ++ ['>']) = Text.size (a ++ '&' :: b.takeWhile isEntityNameChar) := by
    rw [← hend, Text.size_append]
    rfl
  have hlast := congrArg List.getLast? (Text.append_inj_of_size hsplit hsize).1
  rw [List.getLast?_concat, List.getLast?_append_of_ne_nil _ (List.cons_ne_nil _ _)] at hlast
  have hmem := List.mem_of_getLast? hlast.symm
  simp [not_mem_of_class hname (by decide : isEntityNameChar '>' = false)] at hmem

/-- An open reference of a text: what stands before it, its name, and what stands after it. -/
structure ReferenceSite (t : Text) (e : EntityToken) (u name z : Text) : Prop where
  /-- The parts of the text. -/
  text : t = u ++ ('&' :: name ++ z)
  /-- The reference was read there. -/
  written : e.text = '&' :: name
  /-- It has that place. -/
  position : e.position = Text.endPosition u
  /-- The name consists of name characters. -/
  chars : ∀ c ∈ name, isEntityNameChar c = true
  /-- The name goes no further. -/
  stop : z.head?.any isEntityNameChar = false
  /-- A name has no semicolon. -/
  semicolon : name ≠ [] → z.head? ≠ some ';'
  /-- Where the name ends. -/
  nameEnd : e.nameEnd = Text.size u + Text.size ('&' :: name)

/-- An open reference stands in the text as it was read. -/
theorem exists_referenceSite {e : EntityToken} (he : e ∈ (scan t).entities)
    (hopen : e.terminated = false) : ∃ u name z, ReferenceSite t e u name z := by
  obtain ⟨u, w, ht, rfl⟩ := exists_of_mem_entities_written he
  obtain ⟨name, z, rfl, hname, hstop⟩ := EntityText.exists_name_append w
  have hread := EntityText.read_append_of_head? hname hstop
  refine ⟨u, name, z, ht, ?_, ?_, hname, hstop, fun hne => ?_, ?_⟩
  · rw [EntityToken.ofText, hread]
    rfl
  · have hposition : (LineIndex.ofText t).position (Text.size u) = Text.endPosition u := by
      rw [ht, LineIndex.position_ofText_append]
    exact hposition
  · have hnone := EntityText.semicolon_eq_false hopen (by rwa [hread])
    simpa [hread] using hnone
  · rw [EntityToken.nameEnd, EntityToken.ofText, hread]
    rfl

end References

/-- A tag of the masked text that stands in the text as it was read, between what comes before and
after it in the text and in the masked text. -/
structure TagSite (t : Text) (tag : TagText) (u z front later : Text) : Prop where
  /-- The tag was read there. -/
  found : (Text.size u, tag) ∈ TagText.all 0 (mask t)
  /-- The parts of the text. -/
  text : t = u ++ (tag.toText ++ z)
  /-- The parts of the masked text. -/
  masked : mask t = front ++ (tag.toText ++ later)
  /-- Masking keeps the size of what comes before. -/
  size : Text.size front = Text.size u
  /-- Up to the next opening bracket the text goes no further than the masked text. -/
  region : z.takeWhile (· != '<') <+: later.takeWhile (· != '<')
  /-- It is read from the masked text. -/
  read : ∃ r, '<' :: r = tag.toText ++ later ∧ TagText.read? r = some tag

/-- A tag of the masked text in the segments of the text. -/
structure TagCut (t : Text) (place : Nat) (tag : TagText) (l inner rest : List Segment) : Prop where
  /-- The brackets of the tag are plain. -/
  cut : Segment.WellCut (l ++ Segment.plain '<' :: (inner ++ Segment.plain '>' :: rest))
  /-- The segments are those of the text. -/
  text : t = Segment.writtenAll (l ++ Segment.plain '<' :: (inner ++ Segment.plain '>' :: rest))
  /-- The tag has that place. -/
  start : place = Text.size (Segment.writtenAll l)
  /-- Its characters are those of the masked text. -/
  written : tag.toText = '<' :: (Segment.maskedAll inner ++ ['>'])
  /-- It is read from the masked text. -/
  read : ∃ r, '<' :: r = tag.toText ++ Segment.maskedAll rest ∧ TagText.read? r = some tag

section TagSites

variable {t : Text} {place : Nat} {tag : TagText} {l inner rest : List Segment}

/-- Every tag of the masked text begins and ends with plain characters. -/
theorem exists_tagCut (htag : (place, tag) ∈ TagText.all 0 (mask t)) :
    ∃ l inner rest, TagCut t place tag l inner rest := by
  obtain ⟨a, b, hmask, rfl, hstart⟩ := TagText.exists_of_mem_all htag
  obtain ⟨r, rfl, hread⟩ := TagText.exists_read?_of_atStart? hstart
  obtain ⟨later, hlater⟩ := TagText.exists_eq_of_read? hread
  obtain ⟨d, w, htext, -⟩ := TagText.exists_toText_eq hread
  obtain ⟨segments, hcut, rfl, -⟩ := Segment.exists_wellCut t
  have hparts : Segment.maskedAll segments = a ++ '<' :: r := hcut.mask_eq.symm.trans hmask
  obtain ⟨l, after, rfl, rfl, hafter⟩ :=
    Segment.exists_plain_of_maskedAll hparts (by decide) (by decide)
  have hinner : Segment.maskedAll (Segment.plain '<' :: after) = '<' :: d :: w ++ '>' :: later := by
    rw [Segment.maskedAll_plain_cons, hafter, hlater, htext]
    simp
  obtain ⟨inner, rest, hsegments, hfront, rfl⟩ :=
    Segment.exists_plain_of_maskedAll hinner (by decide) (by decide)
  cases inner with
  | nil => cases hfront
  | cons s inner =>
      obtain ⟨rfl, rfl⟩ := List.cons.inj hsegments
      refine ⟨l, inner, rest, hcut, rfl, ?_, ?_, r, hlater, hread⟩
      · rw [Nat.zero_add, Segment.size_maskedAll]
      · have hbody : Segment.maskedAll inner = d :: w := (List.cons.inj hfront).2
        rw [htext, hbody, List.cons_append]

/-- The characters of the text where a tag of the masked text is. -/
theorem TagCut.slice_eq (h : TagCut t place tag l inner rest) :
    Text.slice t ⟨place, place + Text.size tag.toText⟩ =
      '<' :: (Segment.writtenAll inner ++ ['>']) := by
  have hsize : Text.size tag.toText = Text.size ('<' :: (Segment.writtenAll inner ++ ['>'])) := by
    rw [h.written]
    simp [Segment.size_maskedAll]
  have hparts : t = Segment.writtenAll l ++
      ('<' :: (Segment.writtenAll inner ++ ['>']) ++ Segment.writtenAll rest) := by
    rw [h.text]
    simp
  rw [hsize, h.start, hparts, Text.slice_append]

/-- The characters of the masked text where a tag of it is. -/
theorem TagCut.slice_mask_eq (h : TagCut t place tag l inner rest) :
    Text.slice (mask t) ⟨place, place + Text.size tag.toText⟩ = tag.toText := by
  have hparts : mask t = Segment.maskedAll l ++ (tag.toText ++ Segment.maskedAll rest) := by
    rw [h.text, h.cut.mask_eq, h.written]
    simp
  rw [h.start, hparts, ← Segment.size_maskedAll, Text.slice_append]

/-- A tag of the masked text stands in the text as it was read when no section hides a part of
it. -/
theorem exists_tagSite (htag : (place, tag) ∈ TagText.all 0 (mask t))
    (hsame : Text.slice t ⟨place, place + Text.size tag.toText⟩ =
      Text.slice (mask t) ⟨place, place + Text.size tag.toText⟩) :
    ∃ u z front later, place = Text.size u ∧ TagSite t tag u z front later := by
  obtain ⟨l, inner, rest, h⟩ := exists_tagCut htag
  rw [h.slice_eq, h.slice_mask_eq] at hsame
  have hrest : Segment.WellCut rest := by
    cases h.cut.of_append with
    | plain _ hinner =>
        cases hinner.of_append with
        | plain _ hrest => exact hrest
  refine ⟨Segment.writtenAll l, Segment.writtenAll rest, Segment.maskedAll l,
    Segment.maskedAll rest, h.start, h.start ▸ htag, ?_, ?_, Segment.size_maskedAll l,
    hrest.takeWhile_prefix, h.read⟩
  · rw [← hsame, h.text]
    simp
  · rw [h.text, h.cut.mask_eq, h.written]
    simp

/-- A tag of the masked text stands in an anchored text as it was read. -/
theorem Anchored.exists_tagSite (h : Anchored t) (htag : (place, tag) ∈ TagText.all 0 (mask t)) :
    ∃ u z front later, place = Text.size u ∧ TagSite t tag u z front later :=
  MarkupRepair.exists_tagSite htag (h.unhidden _ (List.mem_map_of_mem htag))

end TagSites

theorem size_takeWhile_bne_le (c : Char) (u v : Text) :
    Text.size ((u ++ c :: v).takeWhile (· != c)) ≤ Text.size u := by
  induction u with
  | nil => simp
  | cons d u ih =>
      by_cases hd : d = c
      · simp [hd]
      · rw [List.cons_append, List.takeWhile_cons_of_pos (by simpa using hd), Text.size_cons,
          Text.size_cons]
        omega

/-- When only what comes after the start of a tag without faults has been changed, no tag has that
shares a character with it or comes before the next opening bracket. -/
theorem Anchored.apart_of_touched {t : Text} (h : Anchored t) {tag : TagText}
    {u z front later : Text} (hsite : TagSite t tag u z front later)
    (hfault : (TagToken.ofText (LineIndex.ofText t) (Text.size u, tag)).hasFault = false) {o : Nat}
    (ho : Text.size u < o) {other : TagToken} (hother : other ∈ (scan t).touched o) :
    other.span.stop ≤ Text.size u ∨
      Text.size u + Text.size tag.toText + Text.size (z.takeWhile (· != '<')) ≤
        other.span.start := by
  obtain ⟨hmem, hreason⟩ := Scan.mem_touched_iff.mp hother
  obtain ⟨⟨place, tag'⟩, hfound, rfl⟩ := List.mem_map.mp hmem
  obtain ⟨v, z', _, _, rfl, hsite'⟩ := h.exists_tagSite hfound
  simp only [TagToken.ofText, TagText.size] at hreason ⊢
  rcases TagText.apart_of_mem_all hsite.found hfound with hbefore | ⟨hsame, rfl⟩ | hafter
  · rcases TagText.apart_of_mem_all hfound hsite.found with hlt | ⟨heq, -⟩ | hle
    all_goals omega
  · rw [hsame] at hreason
    rcases hreason with hfault' | hle
    · exact absurd (hfault.symm.trans hfault') (by decide)
    · omega
  · refine Or.inr ?_
    obtain ⟨m, hv, hz⟩ : ∃ m, v = u ++ tag.toText ++ m ∧ z = m ++ (tag'.toText ++ z') := by
      have hparts := hsite.text.symm.trans hsite'.text
      rw [← List.append_assoc] at hparts
      rcases List.append_eq_append_iff.mp hparts with ⟨m, hv, hz⟩ | ⟨m, hu, hz⟩
      · exact ⟨m, hv, hz⟩
      · have hsize := congrArg Text.size hu
        simp only [Text.size_append] at hsize
        obtain rfl : m = [] := Text.eq_nil_of_size_eq_zero (by omega)
        exact ⟨[], by simpa using hu.symm, by simpa using hz.symm⟩
    have hregion := size_takeWhile_bne_le '<' m (tag'.toText.tail ++ z')
    have hstart : '<' :: (tag'.toText.tail ++ z') = tag'.toText ++ z' := rfl
    rw [hstart, ← hz] at hregion
    rw [hv, Text.size_append, Text.size_append]
    omega

/-- An attribute of a tag of a text: what stands before it, the rest of the body of the tag after
its `=`, and what stands from the end of that body on. -/
structure AttributeSite (t : Text) (tag : TagToken) (a : AttributeToken) (written : AttributeText)
    (u w e : Text) : Prop where
  /-- It was found at its place. -/
  found : FoundAt t tag a (Text.size u) written
  /-- The parts of the text. -/
  text : t = u ++ (written.name ++ written.space ++ '=' :: (w ++ e))
  /-- It stands after white space. -/
  blank : u.getLast?.any isWhiteSpace = true
  /-- The name consists of name characters. -/
  name : ∀ c ∈ written.name, isNameChar c = true
  /-- White space only comes between the name and the `=`. -/
  space : ∀ c ∈ written.space, isWhiteSpace c = true
  /-- The value is read after the `=`. -/
  value : written.written = ValueText.read w
  /-- The body has no opening bracket. -/
  noOpening : '<' ∉ w
  /-- The tag ends after the body, with the slash if the body ends before one. -/
  tagEnd : ∃ z, e = '/' :: '>' :: z ∨ e = '>' :: z ∧ w.getLast? ≠ some '/'

/-- An attribute stands in the text as it was read when no section hides a part of its tag. -/
theorem exists_attributeSite {t : Text} {tag : TagToken} (htag : tag ∈ (scan t).tags)
    (hsame : Text.slice t tag.span = Text.slice (mask t) tag.span) {a : AttributeToken}
    (ha : a ∈ tag.attributes) : ∃ written u w e, AttributeSite t tag a written u w e := by
  obtain ⟨offset, written, hfound⟩ := exists_foundAt htag ha
  have hplace := hfound
  obtain ⟨place, text, hmem, htoken, hleading, hwritten, -⟩ := hplace
  rw [htoken] at hsame
  obtain ⟨u, z, _, _, rfl, hsite⟩ := exists_tagSite hmem hsame
  obtain ⟨r, -, hread⟩ := hsite.read
  obtain ⟨p, c, q, hbody, hc, rfl, hattribute⟩ := AttributeText.exists_of_mem_all hwritten
  obtain ⟨rest, rfl, hvalue, -⟩ := AttributeText.exists_toText_append hattribute
  obtain ⟨front, hfront⟩ : ∃ front, front = u ++ '<' :: (text.name ++ (p ++ [c])) := ⟨_, rfl⟩
  obtain ⟨w, hw⟩ : ∃ w, w = written.written.gap ++ (written.written.raw ++ rest) := ⟨_, rfl⟩
  obtain ⟨e, he⟩ : ∃ e, e = (if text.trailingSlash then ['/'] else []) ++ '>' :: z := ⟨_, rfl⟩
  have hparts : text.body = p ++ c :: (written.name ++ written.space ++ '=' :: w) := by
    rw [hbody, hw, AttributeText.toText, AttributeText.beforeValue]
    simp
  have hoffset : Text.size u + text.bodyOffset + Text.size (p ++ [c]) = Text.size front := by
    have hone : '<'.utf8Size = 1 := rfl
    simp [hfront, TagText.bodyOffset, hleading, hone, Nat.add_assoc]
  rw [hoffset] at hfound
  refine ⟨written, front, w, e, hfound, ?_, ?_, AttributeText.name_of_read? hattribute,
    AttributeText.space_of_read? hattribute, hvalue.trans (by rw [hw]), ?_, ?_⟩
  · rw [hsite.text, hfront, he, TagText.toText, hleading, hparts]
    simp
  · rw [hfront, ← List.cons_append, ← List.append_assoc, ← List.append_assoc, List.getLast?_concat]
    exact hc
  · intro hmem
    refine TagText.bracket_not_mem_body hread ?_
    rw [hparts]
    simp [hmem]
  · refine ⟨z, ?_⟩
    cases htrailing : text.trailingSlash with
    | true => exact Or.inl (by rw [he, htrailing]; rfl)
    | false =>
        refine Or.inr ⟨by rw [he, htrailing]; rfl, fun hlast => ?_⟩
        refine TagText.getLast?_body_ne_slash hread htrailing ?_
        obtain ⟨init, rfl⟩ := List.getLast?_eq_some_iff.mp hlast
        have hend :
            text.body = p ++ c :: (written.name ++ written.space ++ '=' :: init) ++ ['/'] := by
          rw [hparts]
          simp
        rw [hend, List.getLast?_concat]

/-- An attribute stands in an anchored text as it was read. -/
theorem Anchored.exists_attributeSite {t : Text} (h : Anchored t) {tag : TagToken}
    (htag : tag ∈ (scan t).tags) {a : AttributeToken} (ha : a ∈ tag.attributes) :
    ∃ written u w e, AttributeSite t tag a written u w e :=
  MarkupRepair.exists_attributeSite htag (h.unhidden tag htag) ha

end MarkupRepair
