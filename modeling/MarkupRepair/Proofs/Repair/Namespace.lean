import MarkupRepair.Proofs.Issue.Places
import MarkupRepair.Proofs.Markup.Attribution
import MarkupRepair.Proofs.Repair.Prolog
import MarkupRepair.Proofs.Repair.SelfClosed
import MarkupRepair.Proofs.Slicing.Basic

/-!
# Ensuring the namespace

The namespace is declared right behind the name of a root that has no such attribute. The root ends
at the same bracket with it, and all tags stay what they are, whatever quotes and sections surround
the place. The attribute is the first one of the root then, so the root has the namespace and is
left alone from then on.
-/

namespace MarkupRepair

namespace Segment

/-- Characters of the masked text other than blanks and line feeds are plain. -/
theorem WellCut.exists_eq_map_plain_of_masked {segments : List Segment} {w z : Text}
    (h : WellCut segments) (hmasked : maskedAll segments = w ++ z)
    (hw : ∀ c ∈ w, c ≠ ' ' ∧ c ≠ '\n') :
    ∃ r, segments = w.map Segment.plain ++ r ∧ maskedAll r = z := by
  induction w generalizing segments with
  | nil => exact ⟨segments, rfl, hmasked⟩
  | cons c w ih =>
      rw [List.forall_mem_cons] at hw
      cases h with
      | nil => cases hmasked
      | @plain d rest _ hrest =>
          obtain ⟨rfl, hlater⟩ := List.cons.inj hmasked
          obtain ⟨r, rfl, hr⟩ := ih hrest hlater hw.2
          exact ⟨r, rfl, hr⟩
      | hidden hreads _ =>
          obtain ⟨u, rfl, -⟩ := exists_eq_cons_of_readsHidden hreads
          exact absurd (List.cons.inj hmasked).1.symm hw.1.1

end Segment

/-- The root of a document: the segments in front of it, its name, what is passed over in it, the
masked text behind it and the segments from the end of its name on. -/
structure RootSite (t : Text) (root : TagToken) (l : List Segment) (name inner rest : Text)
    (r : List Segment) : Prop where
  /-- The name and the bracket in front of it are plain. -/
  cut : Segment.WellCut (l ++ (('<' :: name).map Segment.plain ++ r))
  /-- They stand between the segments. -/
  text : t = Segment.writtenAll l ++ ('<' :: name ++ Segment.writtenAll r)
  /-- The masked text behind the bracket has the parts of a tag. -/
  parts : TagText.Parts (name ++ Segment.maskedAll r) [] name inner rest
  /-- The root is the tag with these parts. -/
  token : root = TagToken.ofText (LineIndex.ofText t)
    (Text.size (Segment.writtenAll l), TagText.ofParts [] name inner)

variable {t next name inner rest : Text} {root : TagToken} {l r : List Segment}

theorem exists_rootSite (hroot : (scan t).root? = some root) :
    ∃ l name inner rest r, RootSite t root l name inner rest r := by
  have hkind := List.find?_some hroot
  rw [Bool.and_eq_true, bne_iff_ne] at hkind
  obtain ⟨⟨o, tag⟩, hall, rfl⟩ := List.mem_map.mp (List.mem_of_find?_eq_some hroot)
  obtain ⟨l, r, hcut, ht, rfl, hread⟩ := Segment.exists_plain_of_mem_all hall
  obtain ⟨slash, name, inner, rest, hparts⟩ := (TagText.starts_of_read? hread).exists_parts
  obtain rfl := Option.some.inj (hread.symm.trans hparts.read?_eq)
  obtain rfl : slash = [] := by
    by_contra hslash
    refine hkind.2 ?_
    exact (TagText.kind_ofParts slash name inner).trans (if_pos hslash)
  have hplain : ∀ c ∈ name, c ≠ ' ' ∧ c ≠ '\n' := fun c hc =>
    ⟨ne_of_class (hparts.nameChars c hc) (by decide),
      ne_of_class (hparts.nameChars c hc) (by decide)⟩
  have hrest : Segment.WellCut r := by
    cases hcut.of_append with
    | plain _ hrest => exact hrest
  have heq : Segment.maskedAll r = name ++ (inner ++ '>' :: rest) := hparts.eq
  rw [heq] at hparts
  obtain ⟨r, rfl, hr⟩ := hrest.exists_eq_map_plain_of_masked heq hplain
  refine ⟨l, name, inner, rest, r, ?_, ?_, ?_, rfl⟩
  · simpa using hcut
  · rw [ht]
    simp
  · rwa [hr]

namespace RootSite

/-- The masked text behind the name. -/
theorem masked_eq (h : RootSite t root l name inner rest r) :
    Segment.maskedAll r = inner ++ '>' :: rest := by
  simpa using h.parts.eq

/-- The name is as long as it can be, in the text as in the masked text. -/
theorem takeWhile_isNameChar (h : RootSite t root l name inner rest r) :
    (name ++ Segment.writtenAll r).takeWhile isNameChar = name := by
  have hr : Segment.WellCut r := h.cut.of_append.of_append
  have hmaximal := h.parts.maximal
  rw [← h.masked_eq] at hmaximal
  have hstop : (Segment.writtenAll r).takeWhile isNameChar = [] := by
    cases hr with
    | nil => rfl
    | plain => exact List.takeWhile_cons_of_neg (by simpa using hmaximal)
    | hidden hreads =>
        obtain ⟨u, rfl, -⟩ := Segment.exists_eq_cons_of_readsHidden hreads
        exact List.takeWhile_cons_of_neg (by decide)
  rw [List.takeWhile_append_of_pos h.parts.nameChars, hstop, List.append_nil]

/-- The tag that is read from the text in the place of the root has the name of the root. -/
theorem name_eq {written : Text} {tag : TagText} (h : RootSite t root l name inner rest r)
    (hslice : t.slice? root.span = some written) (htag : TagText.atStart? written = some tag) :
    tag.name = name := by
  obtain ⟨x, y, hx, hspan⟩ := Text.slice?_eq_some_iff.mp hslice
  have hstart : Text.size (Segment.writtenAll l) = Text.size x := by
    rw [h.token] at hspan
    exact congrArg Span.start hspan
  obtain ⟨rfl, htail⟩ := Text.append_inj_of_size (h.text.symm.trans hx) hstart
  obtain ⟨u, rfl, hread⟩ := TagText.exists_read?_of_atStart? htag
  obtain ⟨v, hv⟩ := TagText.exists_eq_of_read? hread
  have hu : name ++ Segment.writtenAll r = u ++ y := (List.cons.inj htail).2
  have hslash : tag.leadingSlash = false := by
    by_contra hslash
    rw [Bool.not_eq_false] at hslash
    have hletter := h.parts.letter
    obtain ⟨c, s, rfl⟩ := List.exists_cons_of_ne_nil (l := name) (by rintro rfl; cases hletter)
    rw [TagText.toText, hslash] at hv
    rw [(List.cons.inj hv).2] at hu
    exact ne_of_class (p := Char.isAlpha) hletter (by decide) (List.cons.inj hu).1
  obtain ⟨w, hw, hhead⟩ := TagText.exists_name_append hread hslash
  obtain ⟨d, w, rfl⟩ := List.exists_cons_of_ne_nil (l := w) (by rintro rfl; cases hhead)
  rw [hw] at hv
  have hsplit : name ++ Segment.writtenAll r = tag.name ++ d :: (w ++ (v ++ y)) := by
    rw [hu, (List.cons.inj hv).2]
    simp
  calc
    tag.name = (tag.name ++ d :: (w ++ (v ++ y))).takeWhile isNameChar :=
      (takeWhile_append_cons (TagText.name_of_read? hread).1 (by simpa using hhead)).symm
    _ = name := by
      rw [← hsplit, h.takeWhile_isNameChar]

end RootSite

section Declaring

/-- The namespace as an attribute. -/
def namespaceAttribute : Text := quotedAttribute "xmlns".toList xhtmlNamespace

theorem namespaceAttribute_eq : " xmlns=".toList ++ Fix.quotedNamespace = namespaceAttribute := rfl

theorem quotable_namespace : Quotable "xmlns".toList xhtmlNamespace where
  nameStart := by decide
  nameChars := List.all_eq_true.mp (by decide)
  value_ne_nil := by decide
  noQuote := by decide
  noBracket := by decide

namespace RootSite

theorem mask_eq (h : RootSite t root l name inner rest r) :
    mask t = Segment.maskedAll l ++ '<' :: (name ++ Segment.maskedAll r) := by
  have hmask := h.cut.mask_eq
  have ht : Segment.writtenAll (l ++ (('<' :: name).map Segment.plain ++ r)) = t := by
    rw [h.text]
    simp
  rw [ht] at hmask
  simpa using hmask

/-- No section begins or ends elsewhere because of a text behind the name. -/
theorem mask_insert (h : RootSite t root l name inner rest r) {d : Char} {y : Text}
    (hd : d ∉ openerTail) (hy : '<' ∉ d :: y) :
    mask (Segment.writtenAll l ++ ('<' :: name ++ (d :: y ++ Segment.writtenAll r))) =
      Segment.maskedAll l ++ '<' :: (name ++ (d :: y ++ Segment.maskedAll r)) := by
  have hsections : ∀ s, Segment.hidden s ∈ l ++ ('<' :: name).map Segment.plain →
      ∀ later, ReadsHidden s later := by
    intro s hs
    have hl : Segment.hidden s ∈ l := by simpa using hs
    exact Segment.WellCut.readsHidden_of_append (by simpa using h.cut) s hl
  have hcut : Segment.WellCut (l ++ ('<' :: name).map Segment.plain ++
      (([] : Text).map Segment.plain ++ r)) := by
    simpa using h.cut
  have hnew := (hcut.exchange hsections hd (Segment.opensNothing_of_not_mem hy)).mask_eq
  simpa using hnew

/-- The text with the namespace behind the name of the root. -/
def declared (l : List Segment) (name : Text) (r : List Segment) : Text :=
  Segment.writtenAll l ++ ('<' :: name ++ (namespaceAttribute ++ Segment.writtenAll r))

theorem mask_declared (h : RootSite t root l name inner rest r) : mask (declared l name r) =
    Segment.maskedAll l ++ '<' :: (name ++ (namespaceAttribute ++ Segment.maskedAll r)) := by
  exact h.mask_insert (by decide) quotable_namespace.bracket_not_mem

/-- The tags of the text with the namespace: the root with one more attribute in front, and all
others as they were. -/
theorem exists_tags (h : RootSite t root l name inner rest r) :
    ∃ before after before' after', (scan t).tags = before ++ root :: after ∧
      (scan (declared l name r)).tags = before' ++
        TagToken.ofText (LineIndex.ofText (declared l name r)) (Text.size (Segment.writtenAll l),
          TagText.ofParts [] name (namespaceAttribute ++ inner)) :: after' ∧
      before'.map TagToken.content = before.map TagToken.content ∧
      after'.map TagToken.content = after.map TagToken.content ∧
      ∀ tag ∈ before, tag.span.start < root.span.start := by
  have hbracket : ∀ b : Text, TagText.all 0 (Segment.maskedAll l ++ '<' :: b) =
      TagText.all 0 (Segment.maskedAll l) ++
        TagText.all (Text.size (Segment.writtenAll l)) ('<' :: b) := by
    intro b
    rw [TagText.all_append_bracket, Nat.zero_add, Segment.size_maskedAll]
  have hparts := h.parts.attribute quotable_namespace
  rw [List.append_assoc (quotedAttribute _ _), ← h.masked_eq] at hparts
  have htags := h.parts.all_eq (Text.size (Segment.writtenAll l))
  have htags' := hparts.all_eq (Text.size (Segment.writtenAll l))
  have hall : (scan t).tags = _ :=
    congrArg (List.map (TagToken.ofText _)) (h.mask_eq ▸ (hbracket _).trans (congrArg _ htags))
  have hall' : (scan (declared l name r)).tags = _ := congrArg (List.map (TagToken.ofText _))
    (h.mask_declared ▸ (hbracket _).trans (congrArg _ htags'))
  rw [List.map_append, List.map_cons] at hall hall'
  rw [← h.token] at hall
  refine ⟨_, _, _, _, hall, hall', ?_, ?_, ?_⟩
  · rw [List.map_map, List.map_map]
    exact TagText.map_content_all _ _ _ _ _
  · rw [List.map_map, List.map_map]
    exact TagText.map_content_all _ _ _ _ _
  · intro tag htag
    obtain ⟨⟨o, tag⟩, hmem, rfl⟩ := List.mem_map.mp htag
    obtain ⟨a, b, hsplit, rfl, hstart⟩ := TagText.exists_of_mem_all hmem
    obtain ⟨b, rfl, -⟩ := TagText.exists_read?_of_atStart? hstart
    have hsize := congrArg Text.size hsplit
    have hone : '<'.utf8Size = 1 := rfl
    rw [Segment.size_maskedAll, Text.size_append, Text.size_cons, hone] at hsize
    rw [h.token]
    simp only [TagToken.ofText]
    omega

/-- The root comes with the namespace in front of its attributes. -/
theorem attributeNamed?_declared (index : LineIndex) (offset : Nat) :
    ((TagToken.ofText index (offset, TagText.ofParts [] name (namespaceAttribute ++ inner))
      ).attributeNamed? "xmlns".toList).any (·.value == xhtmlNamespace) = true := by
  have hkind : (TagText.ofParts [] name (namespaceAttribute ++ inner)).kind ≠ .closing := by
    rw [TagText.kind_ofParts, if_neg (by simp)]
    split <;> exact nofun
  have hbody : TagText.bodyOf (namespaceAttribute ++ inner) =
      namespaceAttribute ++ TagText.bodyOf inner :=
    (TagText.parted_append (.inr (by decide))).1
  have hall : AttributeText.all _ 0 (TagText.ofParts [] name (namespaceAttribute ++ inner)).body =
      _ := (congrArg _ hbody).trans (quotable_namespace.all_append
    (offset + (TagText.ofParts [] name (namespaceAttribute ++ inner)).bodyOffset) _)
  simp only [TagToken.attributeNamed?, TagToken.ofText, if_neg hkind, hall, List.map_cons]
  rw [List.find?_cons_of_pos (p := fun a : AttributeToken => a.name == "xmlns".toList)
    (beq_self_eq_true "xmlns".toList)]
  exact beq_self_eq_true xhtmlNamespace

/-- With the namespace the tags of the document are the same, and the root has the namespace. -/
theorem established (h : RootSite t root l name inner rest r) (hroot : (scan t).root? = some root) :
    (scan (declared l name r)).tags.map TagToken.outline =
        (scan t).tags.map TagToken.outline ∧
      (scan (declared l name r)).rootHasNamespace = true := by
  obtain ⟨before, after, before', after', htags, htags', hbefore, hafter, hearlier⟩ := h.exists_tags
  have houtline : ∀ {tags tags' : List TagToken},
      tags'.map TagToken.content = tags.map TagToken.content →
        tags'.map TagToken.outline = tags.map TagToken.outline := fun heq => by
    simpa only [List.map_map, Function.comp_def, TagToken.content] using
      congrArg (List.map Prod.fst) heq
  generalize hroot' : TagToken.ofText (LineIndex.ofText (declared l name r))
    (Text.size (Segment.writtenAll l),
      TagText.ofParts [] name (namespaceAttribute ++ inner)) = root' at htags'
  have hsame : root'.outline = root.outline := by
    rw [← hroot', h.token, TagToken.outline_ofText, TagToken.outline_ofText, namespaceAttribute,
      TagText.kind_ofParts_attribute]
    rfl
  refine ⟨?_, ?_⟩
  · rw [htags', htags, List.map_append, List.map_append, List.map_cons, List.map_cons,
      houtline hbefore, houtline hafter, hsame]
  · have hfind : (before ++ root :: after).find?
        (fun tag => tag.name == "html".toList && tag.kind != .closing) = some root := htags ▸ hroot
    have hnone : ∀ tag ∈ before, ¬ (tag.name == "html".toList && tag.kind != .closing) = true := by
      rw [← List.find?_eq_none]
      by_contra hsome
      rw [List.find?_append, Option.or_of_isSome (Option.isSome_iff_ne_none.mpr hsome)] at hfind
      exact Nat.lt_irrefl _ (hearlier root (List.mem_of_find?_eq_some hfind))
    have hnone' : ∀ tag ∈ before',
        ¬ (tag.name == "html".toList && tag.kind != .closing) = true := by
      intro tag htag
      have hmem : tag.outline ∈ before.map TagToken.outline :=
        houtline hbefore ▸ List.mem_map_of_mem htag
      obtain ⟨old, hold, heq⟩ := List.mem_map.mp hmem
      obtain ⟨hkind, hname⟩ := Prod.mk.inj heq
      rw [← hkind, ← hname]
      exact hnone old hold
    have hroot'' : (root'.name == "html".toList && root'.kind != .closing) = true := by
      obtain ⟨hkind, hname⟩ := Prod.mk.inj hsame
      have hfirst := List.find?_some hroot
      rwa [hkind, hname]
    have hfound : (scan (declared l name r)).root? = some root' := by
      rw [Scan.root?, htags', List.find?_append, List.find?_eq_none.mpr hnone', Option.none_or,
        List.find?_cons_of_pos
          (p := fun tag : TagToken => tag.name == "html".toList && tag.kind != .closing) hroot'']
    rw [Scan.rootHasNamespace, hfound, Option.bind_some, ← hroot']
    exact attributeNamed?_declared _ _

end RootSite

/-- A root with the namespace is left alone. -/
theorem Fix.applyNamespace_eq_none (h : (scan t).rootHasNamespace = true) :
    applyNamespace t = none := by
  unfold applyNamespace
  dsimp only
  split
  next => rfl
  next => rw [if_pos h]

/-- Ensuring the namespace on a root without such an attribute puts it behind the name. -/
theorem eq_declared_of_applyNamespace (h : RootSite t root l name inner rest r)
    (hroot : (scan t).root? = some root) (hnone : root.attributeNamed? "xmlns".toList = none)
    (happly : Fix.applyNamespace t = some next) : next = RootSite.declared l name r := by
  unfold Fix.applyNamespace at happly
  dsimp only at happly
  rw [hroot] at happly
  dsimp only at happly
  split at happly
  next => cases happly
  next =>
    rw [hnone] at happly
    dsimp only at happly
    split at happly
    next tag htag =>
      obtain ⟨written, hslice, hstart⟩ := Option.bind_eq_some_iff.mp htag
      have hone : '<'.utf8Size = 1 := rfl
      have hplace : root.span.start + 1 + Text.size tag.name =
          Text.size (Segment.writtenAll l ++ '<' :: name) := by
        rw [h.name_eq hslice hstart, h.token, Text.size_append, Text.size_cons, hone]
        simp only [TagToken.ofText]
        omega
      have hsplice := Text.splice_insert (Segment.writtenAll l ++ '<' :: name)
        (Segment.writtenAll r) (" xmlns=".toList ++ Fix.quotedNamespace)
      rw [List.append_assoc (Segment.writtenAll l), ← h.text, ← hplace,
        Option.some.inj happly] at hsplice
      rw [hsplice, namespaceAttribute_eq, RootSite.declared]
      simp
    next => cases happly

/-- Ensuring the XML declaration and the namespace does what it says and no more. The declaration is
written exactly when it does not conform: the byte order mark stays, what is written takes the place
of the declaration or a line of its own, and it conforms. A root without the attribute gets it
inside of its tag: all tags stay what they are, and the root has the namespace. Either fix has
nothing left to do afterwards. -/
theorem prolog_and_namespace_established (t : Text) :
    (Fix.ensureProlog.apply t = none ↔ (scan t).prologConforms = true) ∧
    (∀ next, Fix.ensureProlog.apply t = some next →
      next.mark = t.mark ∧ (scan next).prologConforms = true ∧ Fix.PutsProlog t next ∧
        Fix.ensureProlog.apply next = none) ∧
    ∀ root next, (scan t).root? = some root → root.attributeNamed? "xmlns".toList = none →
      Fix.ensureNamespace.apply t = some next →
        (∃ front behind, t = front ++ behind ∧ next = front ++ (namespaceAttribute ++ behind) ∧
          root.span.start < Text.size front ∧ Text.size front < root.span.stop) ∧
        (scan next).tags.map TagToken.outline = (scan t).tags.map TagToken.outline ∧
        (scan next).rootHasNamespace = true ∧ Fix.ensureNamespace.apply next = none := by
  refine ⟨Fix.applyProlog_eq_none_iff, fun next happly => ?_,
    fun root next hroot hnone happly => ?_⟩
  · have hputs := Fix.putsProlog_of_applyProlog happly
    exact ⟨hputs.mark_eq, hputs.prologConforms, hputs,
      Fix.applyProlog_eq_none_iff.mpr hputs.prologConforms⟩
  · obtain ⟨l, name, inner, rest, r, h⟩ := exists_rootSite hroot
    obtain rfl := eq_declared_of_applyNamespace h hroot hnone happly
    obtain ⟨houtline, hnamespace⟩ := h.established hroot
    refine ⟨⟨Segment.writtenAll l ++ '<' :: name, Segment.writtenAll r, ?_, ?_, ?_⟩, houtline,
      hnamespace, Fix.applyNamespace_eq_none hnamespace⟩
    · rw [List.append_assoc]
      exact h.text
    · rw [RootSite.declared, List.append_assoc]
    · have hone : '<'.utf8Size = 1 := rfl
      rw [h.token, Text.size_append, Text.size_cons, hone]
      simp only [TagToken.ofText, TagText.size_ofParts h.parts.slash]
      omega

/-- A document with an old XML declaration, and with a bracket in a value of the root. -/
theorem prolog_and_namespace_established_oldDocument :
    let t := "<?xml version='1.1'?>\n<html lang='>' a=b/><!-- <html> -->".toList
    let next := canonicalProlog ++ "\n<html lang='>' a=b/><!-- <html> -->".toList
    let declared := "<?xml version='1.1'?>\n<html".toList ++
      (namespaceAttribute ++ " lang='>' a=b/><!-- <html> -->".toList)
    Fix.ensureProlog.apply t = some next ∧ Fix.ensureProlog.apply next = none ∧
      Fix.ensureNamespace.apply t = some declared ∧ Fix.ensureNamespace.apply declared = none ∧
      (scan declared).tags.map TagToken.outline = [(.selfClosing, "html".toList)] := by
  intro t next declared
  obtain ⟨-, hwritten, hdeclared⟩ := prolog_and_namespace_established t
  have hprolog : Fix.ensureProlog.apply t = some next := by decide +kernel
  have hnamespace : Fix.ensureNamespace.apply t = some declared := by decide +kernel
  have hsome : (scan t).root?.isSome = true := by decide +kernel
  obtain ⟨root, hroot⟩ := Option.isSome_iff_exists.mp hsome
  have hnone : (scan t).root?.bind (·.attributeNamed? "xmlns".toList) = none := by decide +kernel
  rw [hroot, Option.bind_some] at hnone
  obtain ⟨-, -, -, hagain⟩ := hwritten next hprolog
  obtain ⟨-, houtline, -, hagain'⟩ := hdeclared root declared hroot hnone hnamespace
  exact ⟨hprolog, hagain, hnamespace, hagain', houtline.trans (by decide +kernel)⟩

end Declaring

end MarkupRepair
