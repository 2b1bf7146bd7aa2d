import MarkupRepair.Proofs.Markup.Grammar
import MarkupRepair.Proofs.Slicing.Scanning
import MarkupRepair.Proofs.Text.LineSpans

/-!
# Tokens stand outside of sections

The scan looks for tokens in the masked text. Sections are blanked there, so a run without white
space is the same in the text as it is written, at the same offset, and no section has a part of it.
This holds of the beginning of a tag up to the end of its name, of the name of an attribute and of a
reference up to the end of its name.
-/

namespace MarkupRepair

/-- Whether a document goes on with a text at an offset, outside of its sections. -/
structure StandsOutside (t w : Text) (offset : Nat) : Prop where
  /-- The offset does not fall into a character, and the document goes on with the text. -/
  text : ∃ rest, Text.from? t offset = some rest ∧ w <+: rest
  /-- Every section ends in front of the text or begins behind it. -/
  outside : ∀ s ∈ sectionSpans t, s.stop ≤ offset ∨
    offset < s.start ∧ offset + Text.size w ≤ s.start

namespace Segment

variable {segments : List Segment} {a b w : Text}

theorem spans_append (offset : Nat) (l r : List Segment) : spans offset (l ++ r) =
    spans offset l ++ spans (offset + Text.size (writtenAll l)) r := by
  induction l generalizing offset with
  | nil => rfl
  | cons s l ih =>
      cases s with
      | plain c => simp [spans, ih, Nat.add_assoc]
      | hidden s => simp [spans, ih, Nat.add_assoc]

theorem spans_map_plain (offset : Nat) (w : Text) : spans offset (w.map plain) = [] := by
  induction w generalizing offset with
  | nil => rfl
  | cons c w ih => exact ih _

/-- Sections begin and end among the segments that they are from. -/
theorem bounds_of_mem_spans {offset : Nat} {s : Span} (h : s ∈ spans offset segments) :
    offset ≤ s.start ∧ s.stop ≤ offset + Text.size (writtenAll segments) := by
  induction segments generalizing offset with
  | nil => cases h
  | cons segment segments ih =>
      cases segment with
      | plain c =>
          have hbounds := ih h
          rw [writtenAll_plain_cons, Text.size_cons]
          omega
      | hidden hidden =>
          rw [writtenAll_hidden_cons, Text.size_append]
          rcases List.mem_cons.mp h with rfl | h
          · exact ⟨Nat.le_refl _, by dsimp only; omega⟩
          · have hbounds := ih h
            omega

theorem WellCut.sectionSpans_eq (h : WellCut segments) :
    sectionSpans (writtenAll segments) = spans 0 segments := by
  rw [sectionSpans, h.zip_marks, h.sectionSpansFrom_eq]

/-- A run without white space at the beginning of the masked text is plain. -/
theorem WellCut.exists_eq_map_plain_of_maskedAll (h : WellCut segments)
    (hw : ∀ c ∈ w, c ≠ ' ' ∧ c ≠ '\n') (hmask : maskedAll segments = w ++ b) :
    ∃ r, segments = w.map Segment.plain ++ r ∧ maskedAll r = b := by
  induction w generalizing segments with
  | nil => exact ⟨segments, rfl, hmask⟩
  | cons c w ih =>
      rw [List.forall_mem_cons] at hw
      cases h with
      | nil => cases hmask
      | plain _ hrest =>
          obtain ⟨rfl, htail⟩ := List.cons.inj hmask
          obtain ⟨r, rfl, hr⟩ := ih hrest hw.2 htail
          exact ⟨r, rfl, hr⟩
      | @hidden s rest hreads _ =>
          exfalso
          obtain ⟨v, rfl, -⟩ := exists_eq_cons_of_readsHidden hreads
          obtain ⟨d, x, hd⟩ : ∃ d x, ('<' :: v).flatMap (maskChar · .within) = d :: x :=
            ⟨_, _, rfl⟩
          rw [maskedAll_hidden_cons, hd] at hmask
          obtain rfl := (List.cons.inj hmask).1
          have hblank := eq_of_mem_flatMap_maskChar (hd ▸ List.mem_cons_self)
          exact hblank.elim hw.1.1 hw.1.2

/-- A run without white space in the masked text is plain. -/
theorem WellCut.exists_map_plain_of_maskedAll (h : WellCut segments) (hne : w ≠ [])
    (hw : ∀ c ∈ w, c ≠ ' ' ∧ c ≠ '\n') (hmask : maskedAll segments = a ++ (w ++ b)) :
    ∃ l r, segments = l ++ (w.map Segment.plain ++ r) ∧ maskedAll l = a := by
  obtain ⟨c, w, rfl⟩ := List.exists_cons_of_ne_nil hne
  rw [List.forall_mem_cons] at hw
  obtain ⟨l, r, rfl, hl, hr⟩ := exists_plain_of_maskedAll hmask hw.1.1 hw.1.2
  cases h.of_append with
  | plain _ hrest =>
      obtain ⟨r, rfl, -⟩ := hrest.exists_eq_map_plain_of_maskedAll hw.2 hr
      exact ⟨l, r, rfl, hl⟩

end Segment

section Standing

variable {t a w b : Text} {offset : Nat}

/-- A run without white space in the masked text stands in the text, outside of its sections. -/
theorem standsOutside_of_mask (hmask : mask t = a ++ (w ++ b)) (hne : w ≠ [])
    (hw : ∀ c ∈ w, c ≠ ' ' ∧ c ≠ '\n') : StandsOutside t w (Text.size a) := by
  obtain ⟨segments, hcut, rfl, -⟩ := Segment.exists_wellCut t
  rw [hcut.mask_eq] at hmask
  obtain ⟨l, r, rfl, rfl⟩ := hcut.exists_map_plain_of_maskedAll hne hw hmask
  rw [Segment.size_maskedAll]
  constructor
  · refine ⟨w ++ Segment.writtenAll r, ?_, List.prefix_append _ _⟩
    rw [Segment.writtenAll_append, Segment.writtenAll_append, Segment.writtenAll_map_plain,
      Text.from?_append]
  · intro s hs
    rw [hcut.sectionSpans_eq, Segment.spans_append, Segment.spans_append,
      Segment.spans_map_plain, Segment.writtenAll_map_plain, List.nil_append, Nat.zero_add] at hs
    have hsize : Text.size w ≠ 0 := fun h => hne (Text.eq_nil_of_size_eq_zero h)
    rcases List.mem_append.mp hs with hs | hs
    · have hbounds := Segment.bounds_of_mem_spans hs
      omega
    · have hbounds := Segment.bounds_of_mem_spans hs
      omega

/-- The line index leads from the position of the text back to it. -/
theorem StandsOutside.offset?_position (h : StandsOutside t w offset) :
    (LineIndex.ofText t).offset? ((LineIndex.ofText t).position offset) = some offset := by
  obtain ⟨rest, hrest, -⟩ := h.text
  rw [Text.from?, Option.ite_none_right_eq_some] at hrest
  exact LineIndex.offset?_position (Text.le_size_of_isBoundary hrest.1)

end Standing

section Tokens

variable {t : Text}

/-- An attribute has a name. -/
theorem AttributeText.name_ne_nil_of_read? {w : Text} {a : AttributeText}
    (h : AttributeText.read? w = some a) : a.name ≠ [] := by
  unfold read? at h
  split at h
  next hstart =>
    dsimp only at h
    split at h
    next =>
      obtain rfl := Option.some.inj h
      cases w with
      | nil => cases hstart
      | cons c w =>
          have hc : isNameChar c = true := by
            have hstart : c.isAlpha = true ∨ c = '_' := by
              simpa [isNameStart] using hstart
            rcases hstart with halpha | rfl
            · simp [isNameChar, isWordChar_of_isAlphanum, Char.isAlphanum, halpha]
            · decide
          rw [List.takeWhile_cons_of_pos hc]
          exact List.cons_ne_nil _ _
    next => cases h
  next => cases h

/-- How a tag begins, in small letters. -/
def TagToken.opener (tag : TagToken) : Text :=
  '<' :: ((if tag.kind = .closing then ['/'] else []) ++ tag.name)

/-- A scanned tag begins outside of sections, up to the end of its name. -/
theorem exists_standsOutside_of_mem_tags {tag : TagToken} (h : tag ∈ (scan t).tags) :
    ∃ offset w, tag.position = (LineIndex.ofText t).position offset ∧
      Text.toLowerAscii w = tag.opener ∧ StandsOutside t w offset := by
  obtain ⟨a, b, tag, hmask, hread, rfl⟩ := exists_of_mem_tags h
  obtain ⟨slash, name, inner, rest, hparts⟩ := (TagText.starts_of_read? hread).exists_parts
  obtain rfl := Option.some.inj (hread.symm.trans hparts.read?_eq)
  have hsplit : mask t = a ++ ('<' :: (slash ++ name) ++ (inner ++ '>' :: rest)) := by
    rw [hmask, hparts.eq]
    simp
  have hslash : ∀ c ∈ slash, c ≠ ' ' ∧ c ≠ '\n' := by
    rcases hparts.slash with rfl | rfl <;> simp
  have hname : ∀ c ∈ name, c ≠ ' ' ∧ c ≠ '\n' := fun c hc =>
    ⟨ne_of_class (hparts.nameChars c hc) (by decide),
      ne_of_class (hparts.nameChars c hc) (by decide)⟩
  have hw : ∀ c ∈ '<' :: (slash ++ name), c ≠ ' ' ∧ c ≠ '\n' :=
    List.forall_mem_cons.mpr ⟨by decide, List.forall_mem_append.mpr ⟨hslash, hname⟩⟩
  refine ⟨Text.size a, '<' :: (slash ++ name), rfl, ?_,
    standsOutside_of_mask hsplit (List.cons_ne_nil _ _) hw⟩
  rcases hparts.slash with rfl | rfl
  · have hkind : (TagText.ofParts [] name inner).kind ≠ .closing := by
      by_cases hlast : inner.getLast? = some '/' <;> simp [TagText.kind_ofParts, hlast]
    simp only [TagToken.opener, TagToken.ofText, if_neg hkind]
    rfl
  · rfl

/-- The name of an attribute of a scanned tag stands outside of sections. -/
theorem exists_standsOutside_of_mem_attributes {tag : TagToken} {a : AttributeToken}
    (htag : tag ∈ (scan t).tags) (ha : a ∈ tag.attributes) :
    ∃ offset, a.position = (LineIndex.ofText t).position offset ∧
      StandsOutside t a.name offset := by
  obtain ⟨o, written, hfound⟩ := exists_foundAt htag ha
  obtain ⟨front, q, later, hmask, rfl, hread⟩ := hfound.exists_mask
  obtain rfl := hfound.token_eq
  obtain ⟨rest, rfl, -⟩ := AttributeText.exists_toText_append hread
  have hname := AttributeText.name_of_read? hread
  have hsplit : mask t = front ++ (written.name ++ (written.space ++ '=' :: (written.written.gap ++
      (written.written.raw ++ (rest ++ later))))) := by
    rw [hmask]
    simp [AttributeText.toText, AttributeText.beforeValue]
  exact ⟨Text.size front, rfl, standsOutside_of_mask hsplit
    (AttributeText.name_ne_nil_of_read? hread) fun c hc =>
      ⟨ne_of_class (hname c hc) (by decide), ne_of_class (hname c hc) (by decide)⟩⟩

/-- A scanned reference stands outside of sections, up to the end of its name. -/
theorem exists_standsOutside_of_mem_entities {e : EntityToken} (h : e ∈ (scan t).entities) :
    ∃ offset, e.position = (LineIndex.ofText t).position offset ∧
      StandsOutside t e.text offset := by
  obtain ⟨a, b, hmask, rfl⟩ := exists_of_mem_entities h
  have hname : ∀ c ∈ b.takeWhile isEntityNameChar, c ≠ ' ' ∧ c ≠ '\n' := fun c hc =>
    ⟨ne_of_class (List.mem_takeWhile_imp hc) (by decide),
      ne_of_class (List.mem_takeWhile_imp hc) (by decide)⟩
  have hsplit : mask t = a ++
      ('&' :: b.takeWhile isEntityNameChar ++ b.dropWhile isEntityNameChar) := by
    rw [hmask, List.cons_append, List.takeWhile_append_dropWhile]
  exact ⟨Text.size a, rfl, standsOutside_of_mask hsplit (List.cons_ne_nil _ _)
    (List.forall_mem_cons.mpr ⟨by decide, hname⟩)⟩

end Tokens

end MarkupRepair
