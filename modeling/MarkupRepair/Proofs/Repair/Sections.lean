import MarkupRepair.Proofs.Markup.Doctype
import MarkupRepair.Proofs.Markup.Prolog
import MarkupRepair.Proofs.Repair.Displaced

/-!
# Repairs leave comments and CDATA sections alone

When the sections of a document are closed and stand between tags, every fix that is at home keeps
them as they are and between tags, new declarations included. So the repaired document has the same
sections when they have nothing that a displaced fix could take for what it looks for, whatever the
policy and the number of passes.
-/

namespace MarkupRepair

namespace Fix

variable {t next : Text}

/-- What is put in on top, after the byte order mark if there is one, keeps the sections. -/
theorem keepsSections_onTop {y : Text} (h : Sheltered t) (hy : Segment.Exchanges [] y) :
    KeepsSections t (Text.splice t ⟨markSize t, markSize t⟩ y) := by
  obtain ⟨front, rest, rfl, hsize, hfront⟩ := exists_markSize_eq t
  rw [hsize, Text.splice_insert, List.append_assoc]
  have hcut : Segment.CutsAt front ([] ++ rest) := h.cutsAt fun u v _ _ hsuffix _ _ =>
    hfront (hsuffix.subset List.mem_cons_self)
  exact hcut.keepsSections h.between (Segment.opensNothing_of_not_mem (by simp)) hy

/-- Whether a text stands at an offset of another with no section in it. -/
def StandsPlain (t x : Text) (offset : Nat) : Prop :=
  ∃ l r, Segment.WellCut (l ++ (x.map Segment.plain ++ r)) ∧
    Segment.writtenAll l ++ (x ++ Segment.writtenAll r) = t ∧
    Text.size (Segment.writtenAll l) = offset ∧
    ∀ s, Segment.hidden s ∈ l → ∀ later, ReadsHidden s later

/-- Plain text can be exchanged at its place. -/
theorem StandsPlain.keepsSections {x y : Text} {offset : Nat} (hx : StandsPlain t x offset)
    (h : Sheltered t) (hy : Segment.Exchanges x y) :
    KeepsSections t (Text.splice t ⟨offset, offset + Text.size x⟩ y) := by
  obtain ⟨l, r, hcut, rfl, rfl, hsections⟩ := hx
  rw [Text.splice_append, List.append_assoc]
  exact hcut.exchange_sections hsections h.between hy

/-- A part of plain text is plain. -/
theorem StandsPlain.part {u x v : Text} {offset : Nat} (h : StandsPlain t (u ++ (x ++ v)) offset) :
    StandsPlain t x (offset + Text.size u) := by
  obtain ⟨l, r, hcut, rfl, rfl, hsections⟩ := h
  refine ⟨l ++ u.map Segment.plain, v.map Segment.plain ++ r, ?_, ?_, ?_, ?_⟩
  · simpa using hcut
  · simp
  · simp
  · simpa using hsections

/-- The XML declaration of a sheltered text is plain. -/
theorem standsPlain_prolog {header : Header} (h : Sheltered t)
    (hheader : prologHeader? t = some header) : StandsPlain t header.text header.span.start ∧
      header.span.stop = header.span.start + Text.size header.text := by
  obtain ⟨front, q, z, b, ht, hfront, htext, hq, hz, hspan⟩ := exists_of_prologHeader? hheader
  refine ⟨?_, by rw [hspan]⟩
  rw [hspan]
  obtain ⟨segments, hcut, hwritten, -, hsections⟩ := h.exists_wellCut
  have hbetween := h.between
  rw [BetweenTags, ← hwritten, hcut.landmarks_eq] at hbetween
  rw [ht] at hwritten
  rcases Segment.split_of_append hwritten with
    ⟨l, r, rfl, rfl, hr⟩ | ⟨l, s₁, s₂, r, rfl, h₁, -, rfl, -⟩
  · rw [List.filterMap_append] at hbetween
    have hstart : Segment.OpensNothing ['<', '?'] := Segment.opensNothing_of_freeOfDeclarations
      ⟨fun _ => ⟨'?', [], rfl, by decide⟩, by simp [FreeOfDeclarations]⟩
    have hparts : header.text ++ b = ['<', '?'] ++ (q ++ (z ++ b)) := by
      simp [htext]
    rw [hparts] at hr
    obtain ⟨r₁, rfl, hr₁⟩ := hcut.of_append.exists_eq_map_plain_append hstart hr
    have hchain : (Landmark.opening :: r₁.filterMap Segment.landmark?).IsChain
        Landmark.MayPrecede := hbetween.right_of_append
    have hinner : Segment.WellCut r₁ := hcut.of_append.of_append
    obtain ⟨r₂, rfl, hr₂⟩ := hinner.exists_plain_of_opening hchain hr₁ hq
    have hend : Segment.OpensNothing z := Segment.opensNothing_of_not_mem fun hmem =>
      absurd (hz _ hmem) (by decide)
    obtain ⟨r₃, rfl, rfl⟩ := hinner.of_append.exists_eq_map_plain_append hend hr₂
    refine ⟨l, r₃, ?_, ht.symm, rfl, fun s hs => hsections s (List.mem_append_left _ hs)⟩
    rw [htext]
    simpa using hcut
  · obtain ⟨w, hw, -⟩ := Segment.exists_eq_cons_of_readsHidden
      (hsections (s₁ ++ s₂) (by simp) [])
    cases s₁ with
    | nil => exact absurd rfl h₁
    | cons c u =>
        refine absurd ?_ hfront
        rw [(List.cons.inj hw).1]
        simp

/-- Text without opening brackets between two brackets of the masked text is plain. -/
theorem standsPlain_masked {a q b : Text} (h : Sheltered t)
    (hmask : mask t = a ++ '<' :: (q ++ '>' :: b))
    (hq : '<' ∉ q) : StandsPlain t ('<' :: (q ++ ['>'])) (Text.size a) := by
  obtain ⟨segments, hcut, rfl, -, hsections⟩ := h.exists_wellCut
  have hbetween := h.between
  rw [BetweenTags, hcut.landmarks_eq] at hbetween
  rw [hcut.mask_eq] at hmask
  obtain ⟨l, r, rfl, rfl, hr⟩ :=
    Segment.exists_plain_of_maskedAll hmask (by decide) (by decide)
  rw [List.filterMap_append] at hbetween
  have hchain : (Landmark.opening :: r.filterMap Segment.landmark?).IsChain Landmark.MayPrecede :=
    hbetween.right_of_append
  have hrest : Segment.WellCut r := by
    cases hcut.of_append with
    | plain _ hrest => exact hrest
  obtain ⟨r', rfl, -⟩ := hrest.exists_plain_of_masked hchain.tail hr hq
  refine ⟨l, r', hcut, by simp, (Segment.size_maskedAll l).symm, fun s hs => ?_⟩
  exact hsections s (List.mem_append_left _ hs)

/-- The document type of a sheltered text is plain. -/
theorem standsPlain_doctype {header : Header} (h : Sheltered t)
    (hheader : doctypeHeader? 0 (mask t) = some header) :
    StandsPlain t header.text header.span.start ∧
      header.span.stop = header.span.start + Text.size header.text := by
  obtain ⟨a, q, b, hmask, htext, hq, hspan⟩ := exists_of_doctypeHeader? hheader
  rw [hspan, htext, Nat.zero_add]
  exact ⟨standsPlain_masked h hmask hq, rfl⟩

/-- A tag of a sheltered text is plain. -/
theorem standsPlain_tag {a b : Text} {tag : TagText} (h : Sheltered t)
    (hmask : mask t = a ++ '<' :: b)
    (hread : TagText.read? b = some tag) : StandsPlain t tag.toText (Text.size a) := by
  obtain ⟨d, w, htext, -, hbracket⟩ := TagText.exists_toText_eq hread
  obtain ⟨rest, hrest⟩ := TagText.exists_eq_of_read? hread
  rw [hrest, htext] at hmask
  rw [htext]
  exact standsPlain_masked h (q := d :: w) (b := rest) (by rw [hmask]; simp) hbracket

/-- A part of plain text can be exchanged together with what stands around it. -/
theorem StandsPlain.keepsSections_part {u x v y : Text} {offset : Nat}
    (hx : StandsPlain t (u ++ (x ++ v)) offset) (h : Sheltered t)
    (hy : Segment.Exchanges (u ++ (x ++ v)) (u ++ (y ++ v))) :
    KeepsSections t (Text.splice t
      ⟨offset + Text.size u, offset + Text.size u + Text.size x⟩ y) := by
  have hwhole := hx.keepsSections h hy
  obtain ⟨l, r, -, rfl, rfl, -⟩ := hx
  rw [Text.splice_append] at hwhole
  generalize Segment.writtenAll l = front at hwhole ⊢
  generalize Segment.writtenAll r = rest at hwhole ⊢
  have hpart := Text.splice_append (front ++ u) x (v ++ rest) y
  rw [Text.size_append] at hpart
  have hsplit : front ++ (u ++ (x ++ v) ++ rest) = front ++ u ++ (x ++ (v ++ rest)) := by
    simp
  rw [hsplit, hpart, ← hsplit]
  simpa using hwhole

/-- What begins like a declaration in capital letters opens no section. -/
theorem opensNothing_declaration {w : Text} (h : '<' ∉ w) :
    Segment.OpensNothing ('<' :: '!' :: 'D' :: w) := by
  rintro v rest hv hsuffix
  rcases List.suffix_cons_iff.mp hsuffix with rfl | hlater
  · rw [HiddenKind.at?_eq_none_iff]
    intro kind
    cases kind <;> simp [HiddenKind.opener]
  · exact Segment.opensNothing_of_not_mem (by simpa using h) v rest hv hlater

/-- The XML declaration is put where no section is. -/
theorem keepsSections_applyProlog (h : Sheltered t) (happly : applyProlog t = some next) :
    KeepsSections t next := by
  have hexchanges : ∀ x v : Text, '<' ∉ v → '>' ∉ v →
      Segment.Exchanges x ([] ++ (canonicalProlog ++ v)) := by
    intro x v hv hv'
    refine .of_framed (w := "?xml version=\"1.0\" encoding=\"UTF-8\"?".toList)
      ⟨'<', _, rfl, by decide⟩ ?_ rfl (brackets_eq_nil hv hv')
    refine Segment.opensNothing_of_freeOfDeclarations
      ⟨fun _ => ⟨'?', _, rfl, by decide⟩, freeOfDeclarations_of_not_mem ?_⟩
    simp [hv]
  unfold applyProlog at happly
  dsimp only at happly
  split at happly
  next => cases happly
  next =>
    split at happly
    next header hheader =>
      obtain rfl := Option.some.inj happly
      obtain ⟨hplain, hstop⟩ := standsPlain_prolog h hheader
      have hkeeps := hplain.keepsSections h (hexchanges _ [] (by simp) (by simp))
      rwa [← hstop] at hkeeps
    next =>
      obtain rfl := Option.some.inj happly
      exact keepsSections_onTop h (hexchanges _ ['\n'] (by decide) (by decide))

/-- The document type is put where no section is. -/
theorem keepsSections_applyDoctype (h : Sheltered t) (happly : applyDoctype t = some next) :
    KeepsSections t next := by
  have hexchanges : ∀ (x u v : Text), u.head?.all (· ∉ openerTail) = true → '<' ∉ u → '>' ∉ u →
      '<' ∉ v → '>' ∉ v → Segment.Exchanges x (u ++ (canonicalDoctype ++ v)) := by
    intro x u v hstart hu hu' hv hv'
    refine .of_framed (w := "!DOCTYPE html".toList) ?_ ?_ (brackets_eq_nil hu hu')
      (brackets_eq_nil hv hv')
    · cases u with
      | nil => exact ⟨'<', _, rfl, by decide⟩
      | cons d u => exact ⟨d, _, rfl, by simpa using hstart⟩
    · refine (Segment.opensNothing_of_not_mem hu).append
        (opensNothing_declaration (w := "OCTYPE html".toList ++ '>' :: v) ?_)
      rw [List.mem_append, List.mem_cons, not_or, not_or]
      exact ⟨by decide, by decide, hv⟩
  unfold applyDoctype at happly
  dsimp only at happly
  split at happly
  next => cases happly
  next =>
    split at happly
    next header hheader =>
      obtain rfl := Option.some.inj happly
      obtain ⟨hplain, hstop⟩ := standsPlain_doctype h hheader
      have hkeeps := hplain.keepsSections h (hexchanges _ [] [] (by simp) (by simp) (by simp)
        (by simp) (by simp))
      rwa [← hstop] at hkeeps
    next header _ hheader =>
      obtain rfl := Option.some.inj happly
      obtain ⟨hplain, hstop⟩ := standsPlain_prolog h hheader
      rw [← List.append_nil header.text] at hplain
      have hend : StandsPlain t [] (header.span.start + Text.size header.text) :=
        StandsPlain.part (v := []) hplain
      have hkeeps := hend.keepsSections h
        (hexchanges [] ['\n'] [] (by decide) (by decide) (by decide) (by decide) (by decide))
      rw [List.append_nil] at hkeeps
      rwa [← hstop] at hkeeps
    next =>
      obtain rfl := Option.some.inj happly
      exact keepsSections_onTop h (hexchanges _ [] ['\n'] (by simp) (by simp) (by simp)
        (by decide) (by decide))

/-- A tag with another value in place of one of its own still opens no section and begins and ends
with its brackets. -/
theorem exchanges_value {r : Text} {tag : TagText} {u value v : Text}
    (hread : TagText.read? r = some tag)
    (htext : tag.toText = '<' :: (tag.name ++ u) ++ (value ++ (v ++ ['>']))) :
    Segment.Exchanges tag.toText ('<' :: (tag.name ++ u) ++ (quotedNamespace ++ (v ++ ['>']))) := by
  obtain ⟨_, c, s, hname, halpha⟩ := TagText.name_of_read? hread
  obtain ⟨d, w, hbrackets, -, hnone⟩ := TagText.exists_toText_eq hread
  have hinner : tag.name ++ u ++ (value ++ v) = d :: w := by
    refine (List.append_left_inj ['>']).mp ?_
    simpa using (List.cons.inj (htext.symm.trans hbrackets)).2
  rw [← hinner] at hnone
  simp only [List.mem_append, not_or] at hnone
  have hframed := Segment.Exchanges.of_framed (x := tag.toText) (u := [])
    (w := tag.name ++ u ++ quotedNamespace ++ v) (v := []) ⟨'<', _, rfl, by decide⟩ ?_ rfl rfl
  · simpa using hframed
  · refine Segment.opensNothing_of_freeOfDeclarations
      ⟨fun _ => ⟨c, s ++ u ++ quotedNamespace ++ v ++ ['>'], by simp [hname], ?_⟩,
        freeOfDeclarations_of_not_mem ?_⟩
    · exact ne_of_class halpha (by decide)
    · simp only [List.mem_append, List.mem_cons, not_or]
      exact ⟨⟨⟨hnone.1, by decide⟩, hnone.2.2⟩, by decide⟩

/-- An opening bracket and the name begin a tag that is not a closing one, also when its characters
are read again. -/
theorem exists_name_append {r : Text} {tag tag' : TagText} (hread : TagText.read? r = some tag)
    (hleading : tag.leadingSlash = false) (hagain : TagText.atStart? tag.toText = some tag') :
    ∃ v, tag.toText = '<' :: tag'.name ++ ([] ++ v) := by
  obtain ⟨-, c, s, hname, halpha⟩ := TagText.name_of_read? hread
  obtain ⟨rest, hrest⟩ := TagText.exists_toText_append hagain
  cases hleading' : tag'.leadingSlash with
  | false =>
      refine ⟨tag'.body ++ (if tag'.trailingSlash then ['/'] else []) ++ '>' :: rest, ?_⟩
      rw [hrest, TagText.toText, hleading']
      simp
  | true =>
      have hc : c = '/' := by
        simp only [TagText.toText, hleading, hleading', hname] at hrest
        exact (List.cons.inj (List.cons.inj hrest).2).1
      exact absurd hc (ne_of_class halpha (by decide))

/-- The namespace is declared in a tag, where no section is. -/
theorem keepsSections_applyNamespace (h : Sheltered t) (happly : applyNamespace t = some next) :
    KeepsSections t next := by
  unfold applyNamespace at happly
  dsimp only at happly
  split at happly
  next => cases happly
  next root hroot =>
    obtain ⟨a, b, tag, hmask, hread, hleading, rfl⟩ := exists_of_root? hroot
    have hplain := standsPlain_tag h hmask hread
    have hone : '<'.utf8Size = 1 := rfl
    split at happly
    next => cases happly
    next =>
      split at happly
      next token htoken =>
        split at happly
        next =>
          obtain rfl := Option.some.inj happly
          obtain ⟨-, p, c, q, written, hbody, -, hwritten, rfl⟩ :=
            exists_of_mem_attributes (List.mem_of_find?_eq_some htoken)
          obtain ⟨rest, rfl, -⟩ := AttributeText.exists_toText_append hwritten
          have htext : tag.toText = '<' :: (tag.name ++ (p ++ c :: written.beforeValue)) ++
              (written.written.raw ++
                (rest ++ (if tag.trailingSlash then ['/'] else []) ++ ['>'])) := by
            simp [TagText.toText, hleading, hbody, AttributeText.toText]
          have hy := exchanges_value hread htext
          rw [htext] at hplain hy
          have hkeeps := hplain.keepsSections_part h hy
          simpa [AttributeToken.ofText, TagText.bodyOffset, hleading, Nat.add_assoc, hone]
            using hkeeps
        next => cases happly
      next =>
        split at happly
        next tag' htag' =>
          obtain rfl := Option.some.inj happly
          have hslice : Text.slice? t ⟨Text.size a, Text.size a + Text.size tag.toText⟩ =
              some tag.toText := by
            obtain ⟨l, r, -, hwritten, hoffset, -⟩ := hplain
            rw [← hwritten, ← hoffset]
            exact Text.slice?_append _ _ _
          have hread' : TagText.atStart? tag.toText = some tag' := by
            simpa [TagToken.ofText, TagText.size, hslice] using htag'
          obtain ⟨v, htext⟩ := exists_name_append hread hleading hread'
          rw [htext] at hplain
          have hkeeps := StandsPlain.keepsSections (y := " xmlns=".toList ++ quotedNamespace)
            hplain.part h (.of_plain (by decide) (by decide) (by decide))
          simpa [TagToken.ofText, hone, Nat.add_assoc] using hkeeps
        next => cases happly

/-- A fix that was planned for a scanned text keeps its sections when it is at home, and when there
is nothing in them that it could take for what it looks for. -/
theorem keepsSections_apply {fix : Fix} {scanned : Text} (h : Sheltered scanned)
    (ht : KeepsSections scanned t) (hfix : fix.BelongsTo (scan scanned))
    (hover : fix.isAtHome scanned t = false → ∀ s ∈ hiddenSections scanned, fix.Overlooks s)
    (happly : fix.apply t = some next) : KeepsSections t next := by
  have hsheltered := ht.sheltered h
  cases fix with
  | ensureProlog => exact keepsSections_applyProlog hsheltered happly
  | ensureDoctype => exact keepsSections_applyDoctype hsheltered happly
  | ensureNamespace => exact keepsSections_applyNamespace hsheltered happly
  | closeElement tag =>
      obtain ⟨token, htoken, rfl⟩ := hfix
      obtain rfl := Option.some.inj happly
      refine keepsSections_applyClose hsheltered (bracket_not_mem_name htoken) ?_
      rintro a b rfl hanchor
      cases hhome : (closeElement token.name).isAtHome scanned (a ++ b) with
      | true => exact cutsAt_of_anchor_mask hsheltered ((eq_of_beq hhome).symm.trans hanchor)
      | false => exact cutsAt_of_anchor hsheltered hanchor (ht.1 ▸ hover hhome)
  | _ => exact keepsSections_applyInLine h ht hfix rfl hover happly

end Fix

/-- Fixes that were planned for a scanned text keep its sections when there is nothing in them that
the displaced ones could take for what they look for. -/
theorem RepairPlan.keepsSections_applyFixes {fixes : List PlannedFix} {scanned t : Text}
    (h : Sheltered scanned) (ht : KeepsSections scanned t)
    (hfixes : ∀ planned ∈ fixes, planned.fix.BelongsTo (scan scanned))
    (hover : ∀ fix ∈ displaced scanned fixes t, ∀ s ∈ hiddenSections scanned, fix.Overlooks s) :
    KeepsSections scanned (applyFixes fixes t).1 := by
  induction fixes generalizing t with
  | nil => exact ht
  | cons planned rest ih =>
      rw [List.forall_mem_cons] at hfixes
      cases happly : planned.fix.apply t with
      | none =>
          simp only [displaced, happly] at hover
          simpa only [applyFixes, happly] using ih ht hfixes.2 hover
      | some next =>
          simp only [displaced, happly] at hover
          have hnext : KeepsSections t next := by
            refine Fix.keepsSections_apply h ht hfixes.1 (fun haway => ?_) happly
            rw [haway] at hover
            exact hover _ List.mem_cons_self
          have hrest : ∀ fix ∈ displaced scanned rest next, ∀ s ∈ hiddenSections scanned,
              fix.Overlooks s := by
            intro fix hfix
            split at hover
            next => exact hover fix hfix
            next => exact hover fix (List.mem_cons_of_mem _ hfix)
          simpa only [applyFixes, happly] using ih (ht.trans hnext) hfixes.2 hrest

/-- Passes over a text keep its sections when there is nothing in them that the displaced fixes could
take for what they look for. -/
theorem keepsSections_repairWithin {policy : RepairPolicy} {budget : Nat} {t : Text}
    (h : Sheltered t)
    (hover : ∀ fix ∈ displacedWithin policy budget t, ∀ s ∈ hiddenSections t, fix.Overlooks s) :
    KeepsSections t (repairWithin policy budget t).content := by
  induction budget generalizing t with
  | zero => exact .refl h
  | succ budget ih =>
      simp only [displacedWithin, List.forall_mem_append] at hover
      by_cases hpass : (applyPass policy (analyze t) t).2 = []
      · rw [(repairWithin_of_applyPass_eq_nil hpass _).2]
        exact .refl h
      · have hnext : KeepsSections t (applyPass policy (analyze t) t).1 :=
          RepairPlan.keepsSections_applyFixes h (.refl h)
            (fun planned => RepairPlan.belongsTo_of_mem_fixes) hover.1
        rw [repairWithin_succ_of_ne hpass]
        refine hnext.trans (ih (hnext.sheltered h) ?_)
        rw [hnext.1]
        exact hover.2

/-- The comments and CDATA sections of a document that are closed and stand between tags are the same,
character by character, after repairs with any policy and any number of passes, when there is
nothing in them that a displaced fix could take for what it looks for. -/
theorem hiddenSections_repair (options : RepairOptions) {t : Text} (h : Guarded options t) :
    hiddenSections (repair options t).content = hiddenSections t :=
  (keepsSections_repairWithin h.toSheltered h.overlooked).1

section Examples

/-- A document with markup in a comment and in a CDATA section, between two self-closing paragraphs.
Completing the reference in the second one displaces the fix for it. -/
def commentedDocument : Text :=
  canonicalProlog ++ '\n' :: (canonicalDoctype ++ ("\n<html xmlns=\"http://www.w3.org/1999/xhtml\">" ++
    "<p/><!-- <i b=c/> &d --><![CDATA[</body>]]><p &x/></p></html>").toList)

/-- What is planned for that document. -/
def commentedFixes : List PlannedFix :=
  [⟨.terminateEntity ⟨3, 90⟩ "&x/".toList, "invalid_entity", some 3, some 90⟩,
    ⟨.expandSelfClosing ⟨3, 87⟩ "p".toList, "self_closed_container", some 3, some 87⟩,
    ⟨.expandSelfClosing ⟨3, 44⟩ "p".toList, "self_closed_container", some 3, some 44⟩]

set_option maxRecDepth 10000 in
theorem fixes_commentedDocument :
    (RepairPlan.ofIssues {} (analyze commentedDocument)).fixes = commentedFixes := by
  refine RepairPlan.fixes_ofIssues_analyze ?_ ?_ ?_
  · decide +kernel
  · unfold PlannedFix.Compatible
    decide +kernel
  · unfold PlannedFix.Before
    decide +kernel

set_option maxRecDepth 10000 in
/-- The sections of that document. -/
theorem hiddenSections_commentedDocument : hiddenSections commentedDocument =
    ["<!-- <i b=c/> &d -->".toList, "<![CDATA[</body>]]>".toList] := by
  decide +kernel

set_option maxRecDepth 10000 in
/-- The fix for the second paragraph takes the first one. -/
theorem displaced_commentedDocument : RepairOptions.displaced {} commentedDocument =
    [.expandSelfClosing ⟨3, 87⟩ "p".toList] := by
  have hpasses : RepairOptions.displaced {} commentedDocument =
      displacedWithin {} 3 commentedDocument := rfl
  rw [hpasses, displacedWithin, RepairPlan.apply, fixes_commentedDocument]
  decide +kernel

set_option maxRecDepth 10000 in
/-- The sections of that document have no such paragraph, so they are guarded. -/
theorem guarded_commentedDocument : Guarded {} commentedDocument := by
  refine ⟨⟨?_, by decide +kernel⟩, ?_⟩
  · rw [hiddenSections_commentedDocument, List.forall_mem_cons, List.forall_mem_singleton]
    exact ⟨⟨.comment, " <i b=c/> &d ".toList, by decide⟩, ⟨.cdata, "</body>".toList, by decide⟩⟩
  · rw [displaced_commentedDocument, hiddenSections_commentedDocument, List.forall_mem_singleton]
    unfold Fix.Overlooks
    decide +kernel

set_option maxRecDepth 10000 in
/-- Repairs of that document complete the reference, expand a paragraph and keep the sections. -/
theorem hiddenSections_repair_commentedDocument : Guarded {} commentedDocument ∧
    (repair {} commentedDocument).fixesApplied = 2 ∧
    hiddenSections (repair {} commentedDocument).content =
      ["<!-- <i b=c/> &d -->".toList, "<![CDATA[</body>]]>".toList] := by
  refine ⟨guarded_commentedDocument, ?_, ?_⟩
  · have hpasses : (repair {} commentedDocument).fixesApplied =
        (repairWithin {} 3 commentedDocument).applied.length := rfl
    rw [hpasses, repairWithin, RepairPlan.isEmpty, RepairPlan.apply, fixes_commentedDocument]
    decide +kernel
  · rw [hiddenSections_repair {} guarded_commentedDocument, hiddenSections_commentedDocument]

/-- A document in which a comment keeps the attribute `a` from being quoted, and another comment has
something like it. -/
def mistakenDocument : Text :=
  canonicalProlog ++ '\n' :: (canonicalDoctype ++
    "\n<html xmlns=\"http://www.w3.org/1999/xhtml\"><p a=b<!-- -->><!-- a=b --></p></html>".toList)

set_option maxRecDepth 10000 in
/-- In that document a comment is edited: the attribute is quoted there. -/
theorem hiddenSections_repair_mistakenDocument :
    hiddenSections mistakenDocument = ["<!-- -->".toList, "<!-- a=b -->".toList] ∧
      hiddenSections (repair {} mistakenDocument).content =
        ["<!-- -->".toList, "<!-- a=\"b\" -->".toList] := by
  decide +kernel

end Examples

end MarkupRepair
