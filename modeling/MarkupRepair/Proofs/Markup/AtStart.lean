import MarkupRepair.Proofs.Markup.Insertion
import MarkupRepair.Proofs.Repair.Anchored
import MarkupRepair.Proofs.Slicing.Basic

/-!
# A scanned tag is the one that the text begins with at its place

The scan reads its tags from the masked text. What a tag ends at depends on the quotes and the
closing brackets behind it, up to the next opening bracket, and a section behind the tag hides such
characters. It begins with an opening bracket itself, though: in the text as it is written the
stretch that counts stops there, so that it is a beginning of the one of the masked text. Fewer
marks behind a tag do not move its end.
-/

namespace MarkupRepair

/-- No section hides a part of a tag that has no section in it. -/
theorem slice_eq_slice_mask {t : Text} {place : Nat} {tag : TagText}
    (htag : (place, tag) ∈ TagText.all 0 (mask t))
    (hnone : hiddenSections (Text.slice t ⟨place, place + Text.size tag.toText⟩) = []) :
    Text.slice t ⟨place, place + Text.size tag.toText⟩ =
      Text.slice (mask t) ⟨place, place + Text.size tag.toText⟩ := by
  obtain ⟨l, inner, rest, h⟩ := exists_tagCut htag
  have hcut : Segment.WellCut (Segment.plain '<' :: (inner ++ [Segment.plain '>'])) :=
    Segment.WellCut.upTo (l := Segment.plain '<' :: inner) h.cut.of_append
  have hwritten : Segment.writtenAll (Segment.plain '<' :: (inner ++ [Segment.plain '>'])) =
      '<' :: (Segment.writtenAll inner ++ ['>']) := by
    simp
  rw [h.slice_eq, ← hwritten, hcut.hiddenSections_eq] at hnone
  rw [h.slice_eq, h.slice_mask_eq, h.written, ← hwritten, ← Segment.maskedAll_eq_writtenAll hnone,
    Segment.maskedAll_plain_cons, Segment.maskedAll_append]
  rfl

/-- A tag that stands in the text as it was read is read from the text as from the masked text,
which goes further up to the next opening bracket. -/
theorem TagSite.atStart?_eq {t : Text} {tag : TagText} {u z front later : Text}
    (h : TagSite t tag u z front later) : TagText.atStart? (tag.toText ++ z) = some tag := by
  obtain ⟨r, hr, hread⟩ := h.read
  obtain ⟨slash, name, inner, rest, hparts⟩ := (TagText.starts_of_read? hread).exists_parts
  obtain rfl := Option.some.inj (hread.symm.trans hparts.read?_eq)
  have htext : (TagText.ofParts slash name inner).toText =
      '<' :: (slash ++ (name ++ (inner ++ ['>']))) := TagText.toText_ofParts hparts.slash
  have hrest : rest = later := by
    rw [htext, hparts.eq] at hr
    simpa using hr
  have hfewer := hparts.of_fewer_marks inner z rfl (hparts.reads.not_mem hparts.closes)
    hparts.all_head?_inner (hrest ▸ h.region.filter _)
  have hstart : (TagText.ofParts slash name inner).toText ++ z =
      '<' :: (slash ++ (name ++ (inner ++ '>' :: z))) := by
    rw [htext]
    simp
  rw [hstart, TagText.atStart?, hfewer.read?_eq]

/-- A scanned tag without a comment or a CDATA section in it is the tag that the text begins with
from its place on, whatever comes behind it: of the same kind, with the name up to the case of its
letters, with the body that the attributes were read from, and as long. -/
theorem exists_atStart?_eq_of_mem_tags (t : Text) (token : TagToken)
    (htoken : token ∈ (scan t).tags) (hplain : hiddenSections (Text.slice t token.span) = []) :
    ∃ rest written, Text.from? t token.span.start = some rest ∧
      TagText.atStart? rest = some written ∧
      written.kind = token.kind ∧ Text.toLowerAscii written.name = token.name ∧
      token.span.start + written.size = token.span.stop ∧
      (token.span.start, written) ∈ TagText.all 0 (mask t) ∧
      token.attributes = if written.kind = .closing then [] else
        (AttributeText.all (token.span.start + written.bodyOffset) 0 written.body).map
          (AttributeToken.ofText (LineIndex.ofText t)) := by
  obtain ⟨⟨place, written⟩, hfound, rfl⟩ := List.mem_map.mp htoken
  obtain ⟨u, z, _, _, rfl, hsite⟩ := exists_tagSite hfound (slice_eq_slice_mask hfound hplain)
  have hrest : Text.from? t (Text.size u) = some (written.toText ++ z) := by
    rw [hsite.text, Text.from?_append]
  exact ⟨_, written, hrest, hsite.atStart?_eq, rfl, rfl, rfl, hfound, rfl⟩

/-- A tag with a bracket in a value, between comments with a quote and a bracket in them. -/
theorem exists_atStart?_eq_between_comments :
    let t := "<!-- ' > --><P a=\"x>y\" b='é'/><!-- \" ' > -->\" '>".toList
    let a : AttributeToken :=
      ⟨['a'], "x>y".toList, "\"x>y\"".toList, .double, ⟨17, 22⟩, ⟨1, 16⟩⟩
    let b : AttributeToken := ⟨['b'], ['é'], "'é'".toList, .single, ⟨25, 29⟩, ⟨1, 24⟩⟩
    let token : TagToken := ⟨.selfClosing, ['p'], ⟨12, 31⟩, ⟨1, 13⟩, [a, b]⟩
    token ∈ (scan t).tags ∧ hiddenSections (Text.slice t token.span) = [] ∧
      ∃ rest written, Text.from? t token.span.start = some rest ∧
        TagText.atStart? rest = some written ∧
        written.kind = token.kind ∧ Text.toLowerAscii written.name = token.name ∧
        token.span.start + written.size = token.span.stop ∧
        (token.span.start, written) ∈ TagText.all 0 (mask t) ∧
        token.attributes = if written.kind = .closing then [] else
          (AttributeText.all (token.span.start + written.bodyOffset) 0 written.body).map
            (AttributeToken.ofText (LineIndex.ofText t)) := by
  intro t a b token
  have htoken : token ∈ (scan t).tags := by
    decide +kernel
  have hplain : hiddenSections (Text.slice t token.span) = [] := by
    decide +kernel
  exact ⟨htoken, hplain, exists_atStart?_eq_of_mem_tags t token htoken hplain⟩

end MarkupRepair
