import MarkupRepair.Proofs.Issue.Analysis
import MarkupRepair.Proofs.Markup.Insertion
import MarkupRepair.Proofs.Repair.Anchored
import MarkupRepair.Proofs.Repair.Entities

/-!
# The tags around a terminated reference

The fix of an open reference puts characters behind the name of the reference. None of them is a
quote or an angle bracket, so all tags of the text are scanned again, with the same names and up to
the same closing brackets. But a name goes on through a slash: in `<a &x/>` it takes the slash of
the tag, and once the semicolon comes between that slash and the bracket, the tag is an opening one.
-/

namespace MarkupRepair

section Tags

variable {l y : List Segment} {name : Text} {e : EntityText}

/-- What becomes of the scanned tags when an open reference is completed behind its name. -/
theorem Segment.WellCut.map_outline_complete
    (h : WellCut (l ++ (('&' :: name).map Segment.plain ++ y)))
    (hname : ∀ c ∈ name, isEntityNameChar c = true) (hopen : e.terminated = false) :
    (scan (writtenAll l ++ '&' :: (name ++ (e.completion ++ writtenAll y)))).tags.map
        TagToken.outline =
      (scan (writtenAll l ++ '&' :: (name ++ writtenAll y))).tags.map
        (TagToken.outlineCut (Text.size (writtenAll l ++ '&' :: name))) := by
  have hmarks : e.completion.filter TagText.isEndMark = [] := by
    refine List.filter_eq_nil_iff.mpr fun c hc hmark => ?_
    simp only [TagText.isEndMark, Bool.or_eq_true, beq_iff_eq] at hmark
    rcases hmark with (rfl | rfl) | rfl
    all_goals exact e.not_mem_completion (by decide) (by decide) hc
  have hbracket : '<' ∉ e.completion := e.not_mem_completion (by decide) (by decide)
  have hlast : e.completion.getLast? = some ';' := by
    rw [EntityText.completion_of_open hopen]
    split <;> rfl
  have hmask : ∀ w, WellCut (l ++ (('&' :: w).map Segment.plain ++ y)) →
      mask (writtenAll l ++ '&' :: (w ++ writtenAll y)) =
        maskedAll l ++ '&' :: (w ++ maskedAll y) := fun w hcut => by
    simpa using hcut.mask_eq
  have hnew := hmask _ (h.complete hname e)
  rw [List.append_assoc, List.append_assoc] at hnew
  have hsize : Text.size (writtenAll l ++ '&' :: name) =
      0 + Text.size (maskedAll l ++ '&' :: name) := by
    rw [Nat.zero_add, Text.size_append, Text.size_append, size_maskedAll]
  rw [scan, scan, List.map_map, List.map_map, hnew, hmask _ h, hsize]
  exact TagText.map_outline_all_insert _ _ hname hmarks hbracket hlast 0 0 (maskedAll l)

end Tags

/-- An open reference is plain with its whole name, and its fix completes it behind the name. -/
theorem exists_apply_terminateEntity {t : Text} {e : EntityToken} (he : e ∈ (scan t).entities)
    (hopen : e.terminated = false) :
    ∃ l name y, ∃ text : EntityText,
      Segment.WellCut (l ++ (('&' :: name).map Segment.plain ++ y)) ∧
      (∀ c ∈ name, isEntityNameChar c = true) ∧ text.terminated = false ∧
        t = Segment.writtenAll l ++ '&' :: (name ++ Segment.writtenAll y) ∧
          e.nameEnd = Text.size (Segment.writtenAll l ++ '&' :: name) ∧
            (Fix.terminateEntity e.position e.text).apply t = some (Segment.writtenAll l ++
              '&' :: (name ++ (text.completion ++ Segment.writtenAll y))) := by
  obtain ⟨l, r, hcut, ht, rfl⟩ := Segment.exists_plain_of_mem_entities he
  obtain ⟨name, rest, hrest, hname, hstop⟩ := EntityText.exists_name_append (Segment.writtenAll r)
  have hplain : Segment.WellCut r := by
    cases hcut.of_append with
    | plain _ hplain => exact hplain
  have hbracket : '<' ∉ name := not_mem_of_class hname (by decide)
  obtain ⟨y, rfl, rfl⟩ :=
    hplain.exists_eq_map_plain_append (Segment.opensNothing_of_not_mem hbracket) hrest
  have ht' : t = Segment.writtenAll l ++ '&' :: (name ++ Segment.writtenAll y) := by
    simpa using ht
  have hposition : (LineIndex.ofText t).position (Text.size (Segment.writtenAll l)) =
      Text.endPosition (Segment.writtenAll l) := by
    rw [ht', LineIndex.position_ofText_append]
  rw [hrest] at hopen ⊢
  generalize htext : EntityText.read (name ++ Segment.writtenAll y) = text at hopen ⊢
  have hedit := editAt_openReference htext hname hstop rfl hopen
    (Text.endPosition (Segment.writtenAll l)) (Segment.writtenAll l).getLast?
  have happly := Site.apply_planned (s := ⟨Segment.writtenAll l, .openReference text.text⟩) hedit
  refine ⟨l, name, y, text, hcut, hname, hopen, ht', ?_, ?_⟩
  · rw [Text.size_append, ← htext, EntityText.read_append_of_head? hname hstop]
    rfl
  · rw [← ht'] at happly
    simp only [EntityToken.ofText, hposition]
    exact happly

/-- The fix of an open reference can be applied to the text that the reference was found in, and
keeps the kinds and the names of all tags, except that a self-closing tag becomes an opening one if
the name of the reference ends right before its closing bracket. -/
theorem map_outline_tags_terminateEntity {t : Text} {i : Issue} (hi : i ∈ analyze t)
    (hcode : i.code = "invalid_entity") :
    ∃ e ∈ (scan t).entities, e.terminated = false ∧
      i = (scan t).issue (.invalidEntity e.text) (some e.position) ∧
        ∃ next, i.fix? = some (.terminateEntity e.position e.text) ∧
          (Fix.terminateEntity e.position e.text).apply t = some next ∧
            (scan next).tags.map TagToken.outline =
              (scan t).tags.map (TagToken.outlineCut e.nameEnd) ∧
            ((scan next).tags.map TagToken.outline = (scan t).tags.map TagToken.outline ↔
              ∀ tag ∈ (scan t).tags, tag.kind = .selfClosing → e.nameEnd + 1 ≠ tag.span.stop) := by
  have hissue := ((scan t).perm_filter_invalidEntity).mem_iff.mp
    (List.mem_filter.mpr ⟨hi, beq_iff_eq.mpr hcode⟩)
  obtain ⟨e, hfound, rfl⟩ := List.mem_map.mp hissue
  obtain ⟨he, hopen⟩ := List.mem_filter.mp hfound
  rw [Bool.not_eq_true'] at hopen
  obtain ⟨l, name, y, text, hcut, hname, htext, ht, hnameEnd, happly⟩ :=
    exists_apply_terminateEntity he hopen
  have htags := hcut.map_outline_complete hname htext
  rw [← ht, ← hnameEnd] at htags
  refine ⟨e, he, hopen, rfl, _, rfl, happly, htags, ?_⟩
  rw [htags, List.map_inj_left]
  exact forall₂_congr fun tag _ => TagToken.outlineCut_eq_outline_iff

/-- An open reference in a quoted value in front of the slash of a tag: the tags stay. -/
theorem map_outline_tags_terminateEntity_quotedValue :
    let t := "<p><img alt=\"Q&A\"/></p>".toList
    let i := classify false (.invalidEntity "&A".toList) (some ⟨1, 15⟩)
    i ∈ analyze t ∧ i.code = "invalid_entity" ∧
      ∃ next, (i.fix?.bind fun fix => fix.apply t) = some next ∧
        (scan next).tags.map TagToken.outline = [(.opening, "p".toList),
          (.selfClosing, "img".toList), (.closing, "p".toList)] := by
  intro t i
  have hi : i ∈ analyze t := mem_analyze_iff.mpr (by decide +kernel)
  have hapart : ∀ e ∈ (scan t).entities, ∀ tag ∈ (scan t).tags, tag.kind = .selfClosing →
      e.nameEnd + 1 ≠ tag.span.stop := by
    decide +kernel
  have htags : (scan t).tags.map TagToken.outline = [(.opening, "p".toList),
      (.selfClosing, "img".toList), (.closing, "p".toList)] := by
    decide +kernel
  obtain ⟨e, he, -, -, next, hfix, happly, -, hsame⟩ :=
    map_outline_tags_terminateEntity hi rfl
  refine ⟨hi, rfl, next, ?_, (hsame.mpr (hapart e he)).trans htags⟩
  rw [hfix, Option.bind_some, happly]

/-- A self-closing tag whose slash belongs to the name of a reference. -/
def slashedDocument : Text :=
  canonicalProlog ++ '\n' :: (canonicalDoctype ++
    "\n<html xmlns=\"http://www.w3.org/1999/xhtml\"><a &x/></html>".toList)

/-- The fix of the reference makes the tag of the document an opening one. -/
theorem not_tags_kept_slashedDocument : ¬ ∀ (t next : Text) (i : Issue) (fix : Fix),
    i ∈ analyze t → i.code = "invalid_entity" → i.fix? = some fix → fix.apply t = some next →
      (scan next).tags.map TagToken.outline = (scan t).tags.map TagToken.outline := by
  intro h
  let i := classify true (.invalidEntity "&x/".toList) (some ⟨3, 47⟩)
  have hi : i ∈ analyze slashedDocument := mem_analyze_iff.mpr (by decide +kernel)
  have hchanged : ((Fix.terminateEntity ⟨3, 47⟩ "&x/".toList).apply slashedDocument).map
      (fun next => (scan next).tags.map TagToken.outline) =
        some [(.opening, "html".toList), (.opening, "a".toList), (.closing, "html".toList)] := by
    decide +kernel
  obtain ⟨next, happly, hopening⟩ := Option.map_eq_some_iff.mp hchanged
  have hselfClosing : (scan slashedDocument).tags.map TagToken.outline =
      [(.opening, "html".toList), (.selfClosing, "a".toList), (.closing, "html".toList)] := by
    decide +kernel
  have hsame := h slashedDocument next i _ hi rfl rfl happly
  rw [hopening, hselfClosing] at hsame
  exact absurd hsame (by decide)

end MarkupRepair
