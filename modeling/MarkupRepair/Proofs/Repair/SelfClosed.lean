import MarkupRepair.Proofs.Issue.Outline
import MarkupRepair.Proofs.Markup.Apart
import MarkupRepair.Proofs.Repair.Edits
import MarkupRepair.Proofs.Repair.Place
import MarkupRepair.Proofs.Repair.Sources

/-!
# The tags around an expanded tag

A self-closing container that is expanded becomes a tag with what is left of its body and the
closing tag of its name, and all other tags say what they said. The first of the two tags is an
opening one unless another slash stood in front of the slash of the container: in `<p //>` it is
left behind, and `<p /></p>` has a closing tag too many.
-/

namespace MarkupRepair

/-- What an attribute says, wherever it stands. -/
def AttributeToken.content (a : AttributeToken) : Text × Text × Text × Quoting :=
  (a.name, a.value, a.raw, a.quoting)

/-- What a tag says, wherever it stands. -/
def TagToken.content (tag : TagToken) : (TagKind × Text) × List (Text × Text × Text × Quoting) :=
  (tag.outline, tag.attributes.map AttributeToken.content)

section Content

variable (index index' : LineIndex)

/-- What the attributes of a body say does not depend on where the body stands. -/
theorem AttributeText.map_snd_all (o o' skip : Nat) (body : Text) :
    (all o skip body).map Prod.snd = (all o' skip body).map Prod.snd := by
  induction body generalizing o o' skip with
  | nil => cases skip <;> rfl
  | cons c r ih =>
      have hlater := ih (o + c.utf8Size) (o' + c.utf8Size)
      cases skip with
      | succ skip => exact hlater skip
      | zero =>
          rw [all.eq_def, all.eq_def o']
          dsimp only
          cases if isWhiteSpace c = true then read? r else none with
          | none => exact hlater 0
          | some a => exact congrArg (a :: ·) (hlater a.toText.length)

/-- What a tag says does not depend on where it stands. -/
theorem TagToken.content_ofText (o o' : Nat) (tag : TagText) :
    (ofText index (o, tag)).content = (ofText index' (o', tag)).content := by
  have hattributes : ∀ (index : LineIndex) (found : List (Nat × AttributeText)),
      (found.map (AttributeToken.ofText index)).map AttributeToken.content =
        (found.map Prod.snd).map fun a =>
          (a.name, a.written.value, a.written.raw, a.written.quoting) := by
    intro index found
    simp [Function.comp_def, AttributeToken.content, AttributeToken.ofText]
  unfold content
  refine Prod.ext rfl ?_
  dsimp only [ofText]
  split
  · rfl
  · rw [hattributes, hattributes, AttributeText.map_snd_all]

/-- Tags that are the same from some offset on say the same. -/
theorem TagText.map_content_all (o o' : Nat) (t : Text) :
    (all o t).map (fun found => (TagToken.ofText index found).content) =
      (all o' t).map fun found => (TagToken.ofText index' found).content := by
  induction t generalizing o o' with
  | nil => rfl
  | cons c r ih =>
      rw [all_cons, all_cons, List.map_append, List.map_append, ih _ (o' + c.utf8Size)]
      congr 1
      cases atStart? (c :: r) with
      | none => rfl
      | some tag => simp [TagToken.content_ofText index index' o o' tag]

end Content

/-- Whether what is left of the body of an expanded tag ends with a slash. -/
def TagText.keepsSlash (tag : TagText) : Bool := (trimEnd tag.body).getLast? == some '/'

/-- Whether what is left of the body of the tag at a position ends with a slash once the tag is
expanded. -/
def Text.keepsSlashAt (t : Text) (p : Position) : Bool :=
  ((LineIndex.ofText t).offset? p).any fun o =>
    (TagText.atStart? (dropBytes o t)).any TagText.keepsSlash

/-- The tag at the end of a beginning of a text is the one that the rest starts with. -/
theorem Text.keepsSlashAt_append (front : Text) {after : Text} {tag : TagText}
    (h : TagText.atStart? after = some tag) :
    (front ++ after).keepsSlashAt (endPosition front) = tag.keepsSlash := by
  rw [keepsSlashAt, LineIndex.offset?_endPosition, Option.any_some, dropBytes_size_append, h,
    Option.any_some]

/-- Whether a kind is that of a container written as a self-closing tag. -/
def IssueKind.isSelfClosed : IssueKind → Bool
  | .selfClosedContainer _ => true
  | _ => false

/-- The balance finds the containers written as self-closing tags. -/
theorem IssueKind.foundBy_of_isSelfClosed {kind : IssueKind} (h : kind.isSelfClosed = true) :
    kind.foundBy = .balance := by
  cases kind with
  | selfClosedContainer => rfl
  | _ => cases h

namespace Scan

/-- Documents have the same tags without their counterpart, and one of them has one self-closed
container more, when their tags are the same but for an opening and a closing tag that stand in
place of that container. -/
theorem perm_map_kind_selfClosing {s s' : Scan} {before after before' after' : List TagToken}
    {tag opener closer : TagToken} {name : Text} (hs : s.tags = before ++ tag :: after)
    (hs' : s'.tags = before' ++ opener :: closer :: after')
    (hbefore : before'.map TagToken.outline = before.map TagToken.outline)
    (hafter : after'.map TagToken.outline = after.map TagToken.outline)
    (htag : tag.outline = (.selfClosing, name)) (hopener : opener.outline = (.opening, name))
    (hcloser : closer.outline = (.closing, name)) (hcontainer : isContainer name = true) :
    ((s'.issues.filter (·.kind.isUnclosed)).map (·.kind)).Perm
        ((s.issues.filter (·.kind.isUnclosed)).map (·.kind)) ∧
      ((s.issues.filter (·.kind.isSelfClosed)).map (·.kind)).Perm (.selfClosedContainer name ::
        (s'.issues.filter (·.kind.isSelfClosed)).map (·.kind)) := by
  have houtline : s'.tags.map TagToken.outline =
      (before ++ opener :: closer :: after).map TagToken.outline := by
    rw [hs', List.map_append, List.map_append, hbefore]
    simp only [List.map_cons, hafter]
  have hfaults : ((Balance.faults s.tags).map (·.kind)).Perm
      (.selfClosedContainer name :: (Balance.faults s'.tags).map (·.kind)) := by
    rw [Balance.map_kind_faults_congr houtline, hs]
    exact Balance.map_kind_faults_selfClosing htag hopener hcloser hcontainer
  have hunclosed := fun s : Scan =>
    s.perm_map_kind_balance fun _ => IssueKind.foundBy_of_isUnclosed
  have hselfClosed := fun s : Scan =>
    s.perm_map_kind_balance fun _ => IssueKind.foundBy_of_isSelfClosed
  constructor
  · have hfilter := hfaults.filter IssueKind.isUnclosed
    rw [List.filter_cons_of_neg (by simp [IssueKind.isUnclosed])] at hfilter
    exact ((hunclosed s').trans hfilter.symm).trans (hunclosed s).symm
  · have hfilter := hfaults.filter IssueKind.isSelfClosed
    rw [List.filter_cons_of_pos rfl] at hfilter
    exact ((hselfClosed s).trans hfilter).trans ((hselfClosed s').symm.cons _)

end Scan

namespace Segment

section Tags

variable {l r : List Segment} {tag text : TagText} {rest : Text}

/-- The masked text around a tag, before and after the tag is expanded. -/
theorem exists_mask_expanded (h : WellCut (l ++ plain '<' :: r))
    (hread : TagText.read? (maskedAll r) = some tag)
    (htext : TagText.read? (writtenAll r) = some text)
    (hrest : '<' :: writtenAll r = text.toText ++ rest) :
    ∃ z, mask (writtenAll (l ++ plain '<' :: r)) = maskedAll l ++ (text.toText ++ z) ∧
      TagText.atStart? (text.toText ++ z) = some tag ∧
      mask (writtenAll l ++ (text.expanded ++ rest)) = maskedAll l ++ (text.expanded ++ z) := by
  obtain ⟨later, hplain, rfl⟩ := h.of_append.exists_eq_map_plain_append
    (TagText.opensNothing_toText htext) hrest
  have hstart : '<' :: maskedAll r = text.toText ++ maskedAll later := by
    rw [← maskedAll_plain_cons, hplain, maskedAll_append, maskedAll_map_plain]
  refine ⟨maskedAll later, ?_, ?_, ?_⟩
  · rw [h.mask_eq, maskedAll_append, maskedAll_plain_cons, hstart]
  · rw [← hstart]
    exact hread
  · have hsections := h.readsHidden_of_append
    rw [hplain] at h
    have hnew : WellCut (l ++ (text.expanded.map plain ++ later)) :=
      h.exchange hsections (by decide) (TagText.opensNothing_expanded htext)
    have hmask := hnew.mask_eq
    simpa only [writtenAll_append, writtenAll_map_plain, maskedAll_append, maskedAll_map_plain]
      using hmask

/-- The tags of a text around a tag that is written there as a self-closing one, before and after
that one is expanded. -/
theorem exists_tags_expanded (h : WellCut (l ++ plain '<' :: r))
    (hread : TagText.read? (maskedAll r) = some tag)
    (htext : TagText.read? (writtenAll r) = some text) (hkind : text.kind = .selfClosing)
    (hrest : '<' :: writtenAll r = text.toText ++ rest) :
    ∃ before after before' opener closer after',
      (scan (writtenAll (l ++ plain '<' :: r))).tags = before ++
        TagToken.ofText (LineIndex.ofText (writtenAll (l ++ plain '<' :: r)))
          (Text.size (writtenAll l), tag) :: after ∧
      (scan (writtenAll l ++ (text.expanded ++ rest))).tags =
        before' ++ opener :: closer :: after' ∧
      before'.map TagToken.content = before.map TagToken.content ∧
      after'.map TagToken.content = after.map TagToken.content ∧
      opener.outline =
        (if text.keepsSlash then .selfClosing else .opening, Text.toLowerAscii text.name) ∧
      closer.outline = (.closing, Text.toLowerAscii text.name) := by
  obtain ⟨z, hmask, hat, hmask'⟩ := exists_mask_expanded h hread htext hrest
  have hbracket : ∀ b : Text, TagText.all 0 (maskedAll l ++ '<' :: b) =
      TagText.all 0 (maskedAll l) ++ TagText.all (Text.size (writtenAll l)) ('<' :: b) := by
    intro b
    rw [TagText.all_append_bracket, Nat.zero_add, size_maskedAll]
  have htags : TagText.all 0 (mask (writtenAll (l ++ plain '<' :: r))) =
      TagText.all 0 (maskedAll l) ++ (Text.size (writtenAll l), tag) ::
        TagText.all (Text.size (writtenAll l) + Text.size text.toText) z := by
    have hall := TagText.all_append_of_atStart? (TagText.bracket_not_mem_toText_tail htext) hat
      (Text.size (writtenAll l))
    rw [hmask]
    exact (hbracket _).trans (congrArg _ hall)
  obtain ⟨o, hexpanded⟩ := TagText.all_expanded htext hkind (Text.size (writtenAll l)) z
  have htags' : TagText.all 0 (mask (writtenAll l ++ (text.expanded ++ rest))) =
      TagText.all 0 (maskedAll l) ++
        (Text.size (writtenAll l), TagText.ofParts [] text.name (trimEnd text.body)) ::
          (o, TagText.ofParts ['/'] text.name []) ::
            TagText.all (Text.size (writtenAll l) + Text.size text.expanded) z := by
    rw [hmask']
    exact (hbracket _).trans (congrArg _ hexpanded)
  have hbefore : (scan (writtenAll (l ++ plain '<' :: r))).tags = _ :=
    congrArg (List.map (TagToken.ofText _)) htags
  have hafter : (scan (writtenAll l ++ (text.expanded ++ rest))).tags = _ :=
    congrArg (List.map (TagToken.ofText _)) htags'
  rw [List.map_append, List.map_cons] at hbefore hafter
  rw [List.map_cons] at hafter
  refine ⟨_, _, _, _, _, _, hbefore, hafter, ?_, ?_, ?_, rfl⟩
  · rw [List.map_map, List.map_map]
    exact TagText.map_content_all _ _ _ _ _
  · rw [List.map_map, List.map_map]
    exact TagText.map_content_all _ _ _ _ _
  · rw [TagToken.outline_ofText, TagText.kind_ofParts, if_neg (by simp)]
    simp only [TagText.keepsSlash, beq_iff_eq]
    rfl

end Tags

end Segment

section Expanding

variable {t next name : Text} {i : Issue} {p : Position}

/-- A self-closing container that is expanded at its own place becomes an opening and a closing tag
of its name, unless another slash stood at the end of its body: then it becomes a self-closing and a
closing tag. The other tags say what they said. With an opening tag the document has the same tags
without their counterpart as before, and one self-closed container fewer. -/
theorem tags_expandSelfClosing (hi : i ∈ analyze t)
    (hfix : i.fix? = some (.expandSelfClosing p name))
    (happly : (Fix.expandSelfClosing p name).ChangesInPlace t next) :
    (∃ before selfClosed after before' opener closer after',
      (scan t).tags = before ++ selfClosed :: after ∧
      selfClosed.position = p ∧ selfClosed.outline = (.selfClosing, name) ∧
      (scan next).tags = before' ++ opener :: closer :: after' ∧
      before'.map TagToken.content = before.map TagToken.content ∧
      after'.map TagToken.content = after.map TagToken.content ∧
      opener.outline = (if t.keepsSlashAt p then .selfClosing else .opening, name) ∧
      closer.outline = (.closing, name)) ∧
    (t.keepsSlashAt p = false →
      (((analyze next).filter (·.kind.isUnclosed)).map (·.kind)).Perm
        (((analyze t).filter (·.kind.isUnclosed)).map (·.kind)) ∧
      (((analyze t).filter (·.kind.isSelfClosed)).map (·.kind)).Perm
        (.selfClosedContainer name ::
          ((analyze next).filter (·.kind.isSelfClosed)).map (·.kind))) := by
  obtain ⟨tag, htag, hposition, hname, hkind, hcontainer⟩ := Fix.belongsTo_of_mem_analyze hi hfix
  obtain ⟨⟨o, tag⟩, hall, rfl⟩ := List.mem_map.mp htag
  obtain ⟨l, r, hcut, rfl, rfl, hread⟩ := Segment.exists_plain_of_mem_all hall
  have hplace : p = Text.endPosition (Segment.writtenAll l) := by
    rw [← hposition, Segment.writtenAll_append]
    exact LineIndex.position_ofText_append _ _
  obtain ⟨front, w, changed, ht, rfl, hfront, hedit⟩ := happly
  obtain rfl : p = Text.endPosition front := Option.some.inj hfront
  rw [Segment.writtenAll_append] at ht
  obtain rfl := LineIndex.eq_of_endPosition_eq ht.symm hplace
  obtain rfl := List.append_cancel_left ht
  obtain ⟨text, rest, htext, hselfClosing, hrest, rfl⟩ := Fix.exists_of_expandAt hedit
  have hlower : Text.toLowerAscii text.name = name := by
    rw [Fix.name_of_expandAt hedit htext, ← hname]
    exact Text.toLowerAscii_toLowerAscii _
  obtain ⟨before, after, before', opener, closer, after', htags, htags', hbefore, hafter, hopener,
    hcloser⟩ := Segment.exists_tags_expanded hcut hread htext hselfClosing hrest
  have hslash := Text.keepsSlashAt_append (Segment.writtenAll l) htext
  rw [← Segment.writtenAll_append] at hslash
  rw [hlower, ← hslash] at hopener
  rw [hlower] at hcloser
  refine ⟨⟨before, _, after, before', opener, closer, after', htags, hposition,
    Prod.ext hkind hname, htags', hbefore, hafter, hopener, hcloser⟩, fun hnone => ?_⟩
  rw [hnone, if_neg Bool.false_ne_true] at hopener
  have houtlines : ∀ tags tags' : List TagToken,
      tags'.map TagToken.content = tags.map TagToken.content →
        tags'.map TagToken.outline = tags.map TagToken.outline := fun tags tags' h => by
    simpa only [List.map_map, Function.comp_def, TagToken.content] using
      congrArg (List.map Prod.fst) h
  exact Scan.perm_map_kind_selfClosing htags htags' (houtlines _ _ hbefore)
    (houtlines _ _ hafter) (Prod.ext hkind hname) hopener hcloser hcontainer

/-- A paragraph written as a self-closing tag inside of an element that is left open. -/
theorem tags_expandSelfClosing_leftOpen :
    let t := "<div>\n<p a=\"x\" />".toList
    let next := "<div>\n<p a=\"x\"></p>".toList
    let i := classify false (.selfClosedContainer "p".toList) (some ⟨2, 1⟩)
    let fix := Fix.expandSelfClosing ⟨2, 1⟩ "p".toList
    i ∈ analyze t ∧ i.fix? = some fix ∧ fix.ChangesInPlace t next ∧
      Text.keepsSlashAt t ⟨2, 1⟩ = false ∧
      (((analyze next).filter (·.kind.isUnclosed)).map (·.kind)).Perm
        (((analyze t).filter (·.kind.isUnclosed)).map (·.kind)) ∧
      (((analyze t).filter (·.kind.isSelfClosed)).map (·.kind)).Perm
        (.selfClosedContainer "p".toList ::
          ((analyze next).filter (·.kind.isSelfClosed)).map (·.kind)) := by
  intro t next i fix
  have hi : i ∈ analyze t := mem_analyze_iff.mpr (by decide +kernel)
  have happly : fix.ChangesInPlace t next := ⟨"<div>\n".toList, "<p a=\"x\" />".toList,
    "<p a=\"x\"></p>".toList, rfl, rfl, by decide +kernel, by decide +kernel⟩
  have hslash : Text.keepsSlashAt t ⟨2, 1⟩ = false := by decide +kernel
  exact ⟨hi, rfl, happly, hslash, (tags_expandSelfClosing hi rfl happly).2 hslash⟩

/-- A self-closing container with a slash too many. -/
def doubleSlashDocument : Text :=
  canonicalProlog ++ '\n' :: (canonicalDoctype ++
    "\n<html xmlns=\"http://www.w3.org/1999/xhtml\"><p //></html>".toList)

/-- The container of the document is not expanded to an opening and a closing tag, and the closing
tag that is written has no counterpart. -/
theorem not_balanced_doubleSlashDocument : ¬ ∀ (t next : Text) (i : Issue) (p : Position)
    (name : Text), i ∈ analyze t → i.fix? = some (.expandSelfClosing p name) →
      (Fix.expandSelfClosing p name).ChangesInPlace t next →
        (∃ before after,
          (scan t).tags.map TagToken.outline = before ++ (.selfClosing, name) :: after ∧
          (scan next).tags.map TagToken.outline =
            before ++ (.opening, name) :: (.closing, name) :: after) ∧
        (((analyze next).filter (·.kind.isUnclosed)).map (·.kind)).Perm
          (((analyze t).filter (·.kind.isUnclosed)).map (·.kind)) ∧
        (((analyze t).filter (·.kind.isSelfClosed)).map (·.kind)).Perm
          (.selfClosedContainer name ::
            ((analyze next).filter (·.kind.isSelfClosed)).map (·.kind)) := by
  intro h
  let next := canonicalProlog ++ '\n' :: (canonicalDoctype ++
    "\n<html xmlns=\"http://www.w3.org/1999/xhtml\"><p /></p></html>".toList)
  let i := classify true (.selfClosedContainer "p".toList) (some ⟨3, 44⟩)
  have hi : i ∈ analyze doubleSlashDocument := mem_analyze_iff.mpr (by decide +kernel)
  have happly :
      (Fix.expandSelfClosing ⟨3, 44⟩ "p".toList).ChangesInPlace doubleSlashDocument next :=
    ⟨canonicalProlog ++ '\n' :: (canonicalDoctype ++
        "\n<html xmlns=\"http://www.w3.org/1999/xhtml\">".toList),
      "<p //></html>".toList, "<p /></p></html>".toList, rfl, rfl, by decide +kernel,
      by decide +kernel⟩
  obtain ⟨⟨before, after, htags, htags'⟩, -⟩ := h _ _ i _ _ hi rfl happly
  have hcount : ((scan doubleSlashDocument).tags.map TagToken.outline).count
      (.selfClosing, "p".toList) = 1 := by
    decide +kernel
  have hcount' : ((scan next).tags.map TagToken.outline).count (.selfClosing, "p".toList) = 1 := by
    decide +kernel
  rw [htags, List.count_append, List.count_cons_self] at hcount
  rw [htags', List.count_append, List.count_cons_of_ne (by decide),
    List.count_cons_of_ne (by decide)] at hcount'
  omega

end Expanding

end MarkupRepair
