import MarkupRepair.Proofs.Issue.Outline
import MarkupRepair.Proofs.Markup.Apart
import MarkupRepair.Proofs.Repair.Allotment
import MarkupRepair.Proofs.Repair.Sheltered

/-!
# Closing what is left open

The missing closing tags are put in from the innermost open element to the outermost one. Where all
of them go to the end of the document, each comes behind the ones before it, and the elements are
closed in the order in which they have to be.

A closing tag goes to the end when the text has no tag that it is put before: the closing tag of the
body or of the root, be it one that was put in a moment ago. So `<div><body>` is not closed well:
once the body is closed, the closing tag of the other element goes in front of it.
-/

namespace MarkupRepair

section Finding

variable {mark t : Text}

/-- A mark is not found in a text that it is no part of. -/
theorem Text.find?_eq_none_iff : find? mark t = none ↔ ¬ mark <:+: t := by
  induction t with
  | nil => cases mark <;> simp [find?]
  | cons c r ih =>
      rw [List.infix_cons_iff, ← startsWith_iff, find?]
      split
      next hstarts => simp [hstarts]
      next hstarts => simp [hstarts, ih]

end Finding

namespace Fix

variable {name other t : Text}

/-- The closing tags that a missing one is put before. -/
def anchors (name : Text) : List Text :=
  if name = "html".toList then []
  else if name = "body".toList then [closingTag "html".toList]
  else [closingTag "body".toList, closingTag "html".toList]

theorem closeAnchor?_eq_none_iff :
    closeAnchor? t name = none ↔ ∀ mark ∈ anchors name, ¬ mark <:+: t := by
  unfold closeAnchor? anchors
  dsimp only
  split
  · simp
  · split
    · simp [Text.find?_eq_none_iff]
    · simp [Option.or_eq_none_iff, Text.find?_eq_none_iff]

theorem newline_not_mem_of_mem_anchors {mark : Text} (h : mark ∈ anchors name) : '\n' ∉ mark := by
  have hall : ∀ mark ∈ [closingTag "body".toList, closingTag "html".toList], '\n' ∉ mark := by
    decide
  refine hall mark ?_
  unfold anchors at h
  split at h
  · cases h
  · split at h
    · exact List.mem_cons_of_mem _ h
    · exact h

/-- A closing tag without an anchor goes to the end. -/
theorem applyClose_of_closeAnchor? (h : closeAnchor? t name = none) :
    applyClose name t = trimEnd t ++ '\n' :: (closingTag name ++ ['\n']) := by
  simp [applyClose, h]

/-- A closing tag at the end is an anchor for another one only if it is one by itself. -/
theorem closeAnchor?_applyClose (hname : closeAnchor? t name = none)
    (hother : closeAnchor? t other = none) (happart : closeAnchor? (closingTag name) other = none) :
    closeAnchor? (applyClose name t) other = none := by
  rw [closeAnchor?_eq_none_iff] at hother happart ⊢
  intro mark hmark hfound
  have hnewline := newline_not_mem_of_mem_anchors hmark
  rw [applyClose_of_closeAnchor? hname] at hfound
  rcases infix_of_append_cons hnewline hfound with hfound | hfound
  · obtain ⟨blanks, hblanks, -⟩ := exists_trimEnd_append t
    refine hother mark hmark (hfound.trans ⟨[], blanks, ?_⟩)
    rw [List.nil_append, ← hblanks]
  · rcases infix_of_append_cons hnewline hfound with hfound | hfound
    · exact happart mark hmark hfound
    · exact happart mark hmark (hfound.trans List.nil_infix)

/-- Whether closing tags go to the end of a text one after another. -/
structure Unanchored (names : List Text) (t : Text) : Prop where
  /-- The text has no anchor for any of them. -/
  free : ∀ name ∈ names, closeAnchor? t name = none
  /-- None is an anchor for a later one. -/
  apart : names.Pairwise fun name later => closeAnchor? (closingTag name) later = none

/-- The other closing tags go to the end after the first one. -/
theorem Unanchored.applyClose {names : List Text} (h : Unanchored (name :: names) t) :
    Unanchored names (applyClose name t) := by
  obtain ⟨hname, hnames⟩ := List.forall_mem_cons.mp h.free
  obtain ⟨hfirst, hrest⟩ := List.pairwise_cons.mp h.apart
  exact ⟨fun other hother => closeAnchor?_applyClose hname (hnames other hother)
    (hfirst other hother), hrest⟩

end Fix

section Names

/-- The name of a scanned tag is one of a tag. -/
theorem isTagName_of_mem_tags {t : Text} {tag : TagToken} (h : tag ∈ (scan t).tags) :
    IsTagName tag.name := by
  obtain ⟨⟨o, text⟩, hall, rfl⟩ := List.mem_map.mp h
  obtain ⟨l, r, -, -, -, hread⟩ := Segment.exists_plain_of_mem_all hall
  obtain ⟨hchars, c, s, hname, hletter⟩ := TagText.name_of_read? hread
  have hlower : ∀ d : Char, d.toLower = d ∨ d.toLower.isAlpha = true := by
    intro d
    rcases toLower_eq_or d with heq | ⟨-, -, hlower⟩
    · exact .inl heq
    · exact .inr (by rw [Char.isAlpha, hlower, Bool.or_true])
  constructor
  · change ((text.name.map Char.toLower).head?.any Char.isAlpha) = true
    rw [hname, List.map_cons, List.head?_cons, Option.any_some]
    rcases hlower c with heq | halpha
    · rw [heq, hletter]
    · exact halpha
  · intro d hd
    obtain ⟨e, he, rfl⟩ := List.mem_map.mp hd
    rcases hlower e with heq | halpha
    · rw [heq]
      exact hchars e he
    · have hnum : e.toLower.isAlphanum = true := by
        rw [Char.isAlphanum, halpha, Bool.true_or]
      simp [isNameChar, isWordChar_of_isAlphanum hnum]

end Names

section Scans

variable {name t : Text}

/-- Segments without characters are no segments. -/
theorem Segment.WellCut.eq_nil_of_writtenAll {segments : List Segment} (h : WellCut segments)
    (hnil : writtenAll segments = []) : segments = [] := by
  cases h with
  | nil => rfl
  | plain => cases hnil
  | hidden hreads =>
      obtain ⟨r, rfl, -⟩ := exists_eq_cons_of_readsHidden hreads
      cases hnil

/-- A text whose sections are closed can be cut in front of the blanks at its end. -/
theorem exists_wellCut_trimEnd (hclosed : ∀ s ∈ hiddenSections t, IsClosed s) :
    ∃ (l : List Segment) (blanks : Text), Segment.WellCut (l ++ blanks.map Segment.plain) ∧
      t = Segment.writtenAll (l ++ blanks.map Segment.plain) ∧ trimEnd t = Segment.writtenAll l ∧
      (∀ c ∈ blanks, isWhiteSpace c = true) ∧
      ∀ s, Segment.hidden s ∈ l → ∀ later, ReadsHidden s later := by
  obtain ⟨segments, hcut, ht, hreads⟩ := Segment.exists_wellCut t
  obtain ⟨blanks, hblanks, hall⟩ := exists_trimEnd_append t
  have hsections : ∀ s, Segment.hidden s ∈ segments → IsClosed s := by
    intro s hs
    refine hclosed s ?_
    rw [← ht, hcut.hiddenSections_eq]
    exact List.mem_filterMap.mpr ⟨_, hs, rfl⟩
  rcases Segment.split_of_append (ht.trans hblanks) with ⟨l, r, rfl, hl, hr⟩ |
    ⟨l, s₁, s₂, r, rfl, -, h₂, -, hr⟩
  · have hrest : Segment.WellCut r := hcut.of_append
    obtain ⟨r, rfl, hnil⟩ := hrest.exists_eq_map_plain_append (b := [])
      (Segment.opensNothing_of_not_mem (not_mem_of_class hall (by decide)))
      (by rw [hr, List.append_nil])
    obtain rfl := hrest.of_append.eq_nil_of_writtenAll hnil
    rw [List.append_nil] at *
    exact ⟨l, blanks, hcut, ht.symm, hl.symm, hall, fun s hs =>
      hreads s (List.mem_append_left _ hs) (hsections s (List.mem_append_left _ hs))⟩
  · exfalso
    obtain ⟨w, hw⟩ := (hsections _ (List.mem_append_right _ List.mem_cons_self)).exists_eq
    have hlast : '>' ∈ s₂ := by
      have hend : (s₁ ++ s₂).getLast? = some '>' := by
        rw [hw, ← List.cons_append, List.getLast?_concat]
      rw [List.getLast?_append_of_ne_nil _ h₂] at hend
      exact List.mem_of_getLast? hend
    refine not_mem_of_class hall (d := '>') (by decide) ?_
    rw [← hr]
    exact List.mem_append_left _ hlast

/-- What a closing tag at the end of a document whose sections are closed leaves of its masked
text. -/
theorem mask_applyClose (hname : IsTagName name) (hclosed : ∀ s ∈ hiddenSections t, IsClosed s)
    (hanchor : Fix.closeAnchor? t name = none) :
    ∃ kept blanks, mask t = kept ++ blanks ∧ (∀ c ∈ blanks, isWhiteSpace c = true) ∧
      mask (Fix.applyClose name t) = kept ++ '\n' :: (Fix.closingTag name ++ ['\n']) ∧
      hiddenSections (Fix.applyClose name t) = hiddenSections t := by
  obtain ⟨l, blanks, hcut, ht, htrim, hall, hsections⟩ := exists_wellCut_trimEnd hclosed
  have hbracket : '<' ∉ name := not_mem_of_class hname.nameChars (by decide)
  have hopens : Segment.OpensNothing ('\n' :: (Fix.closingTag name ++ ['\n'])) := by
    refine Segment.opensNothing_of_freeOfDeclarations ⟨nofun, ?_⟩
    refine FreeOfDeclarations.append (a := Fix.closingTag name)
      ⟨fun _ => ⟨'/', _, rfl, by decide⟩, ?_⟩ (freeOfDeclarations_of_not_mem (by decide))
    exact freeOfDeclarations_of_not_mem (by simp [hbracket])
  have hnew := Segment.WellCut.exchange (r := []) (by rwa [List.append_nil]) hsections (by decide)
    hopens
  rw [List.append_nil] at hnew
  have hwritten : Segment.writtenAll (l ++ ('\n' :: (Fix.closingTag name ++ ['\n'])).map
      Segment.plain) = Fix.applyClose name t := by
    rw [Fix.applyClose_of_closeAnchor? hanchor, htrim, Segment.writtenAll_append,
      Segment.writtenAll_map_plain]
  refine ⟨Segment.maskedAll l, blanks, ?_, hall, ?_, ?_⟩
  · rw [ht, hcut.mask_eq, Segment.maskedAll_append, Segment.maskedAll_map_plain]
  · rw [← hwritten, hnew.mask_eq, Segment.maskedAll_append, Segment.maskedAll_map_plain]
  · rw [← hwritten, hnew.hiddenSections_eq, ht, hcut.hiddenSections_eq, List.filterMap_append,
      List.filterMap_append, Segment.filterMap_section?_map_plain,
      Segment.filterMap_section?_map_plain]

/-- The outlines of the tags of a document are those of its masked text. -/
theorem map_outline_tags (t : Text) : (scan t).tags.map TagToken.outline =
    (TagText.all 0 (mask t)).map fun found => (found.2.kind, Text.toLowerAscii found.2.name) := by
  have hscan : (scan t).tags =
      (TagText.all 0 (mask t)).map (TagToken.ofText (LineIndex.ofText t)) := rfl
  rw [hscan, List.map_map]
  exact List.map_congr_left fun found _ => TagToken.outline_ofText _ found.1 found.2

/-- A closing tag at the end of a document whose sections are closed is one more tag of it. -/
theorem map_outline_applyClose (hname : IsTagName name)
    (hclosed : ∀ s ∈ hiddenSections t, IsClosed s) (hanchor : Fix.closeAnchor? t name = none) :
    (scan (Fix.applyClose name t)).tags.map TagToken.outline =
      (scan t).tags.map TagToken.outline ++ [(.closing, Text.toLowerAscii name)] := by
  obtain ⟨kept, blanks, hmask, hall, hmask', -⟩ := mask_applyClose hname hclosed hanchor
  have hnewline : ∀ c ∈ ['\n'], isWhiteSpace c = true :=
    List.forall_mem_singleton.mpr (by decide)
  have hnone : ∀ o, TagText.all o ['\n'] = [] := fun o =>
    TagText.all_append_blanks hnewline o []
  have hbehind :=
    TagText.all_append_bracket 0 (kept ++ ['\n']) ('/' :: name ++ ['>'] ++ ['\n'])
  have hcloser := TagText.all_closing hname (0 + Text.size (kept ++ ['\n'])) ['\n']
  rw [List.cons_append, hnone] at hcloser
  rw [hcloser, TagText.all_append_blanks hnewline, List.append_assoc, List.singleton_append]
    at hbehind
  have htags : TagText.all 0 (mask (Fix.applyClose name t)) = _ :=
    (congrArg (TagText.all 0) hmask').trans hbehind
  rw [map_outline_tags, map_outline_tags, htags, hmask, TagText.all_append_blanks hall,
    List.map_append]
  rfl

/-- Closing tags that go to the end of a document whose sections are closed are further tags of
it. -/
theorem map_outline_applyFixes {frames : List TagToken}
    (hnames : ∀ frame ∈ frames, IsTagName frame.name)
    (hclosed : frames ≠ [] → ∀ s ∈ hiddenSections t, IsClosed s)
    (hunanchored : Fix.Unanchored (frames.map (·.name)) t) :
    (scan (RepairPlan.applyFixes (frames.map TagToken.plannedCloser) t).1).tags.map
        TagToken.outline = (scan t).tags.map TagToken.outline ++
      frames.map fun frame => (.closing, Text.toLowerAscii frame.name) := by
  induction frames generalizing t with
  | nil => exact (List.append_nil _).symm
  | cons frame frames ih =>
      obtain ⟨hname, hnames⟩ := List.forall_mem_cons.mp hnames
      have hclosed := hclosed (List.cons_ne_nil _ _)
      have hanchor := hunanchored.free _ List.mem_cons_self
      obtain ⟨-, -, -, -, -, hsections⟩ := mask_applyClose hname hclosed hanchor
      have hrest := ih hnames (fun _ => by rwa [hsections]) hunanchored.applyClose
      rw [map_outline_applyClose hname hclosed hanchor, List.append_assoc] at hrest
      exact hrest

end Scans

section Passes

variable {policy : RepairPolicy} {t : Text}

/-- The kinds of one code are those of the tags without their counterpart. -/
theorem IssueKind.exists_of_code_unclosed {kind : IssueKind} (h : kind.code = "unclosed_tag") :
    ∃ name cause, kind = .unclosedTag name cause := by
  cases kind with
  | unclosedTag name cause => exact ⟨name, cause, rfl⟩
  | _ => simp [code] at h

theorem IssueKind.code_of_isUnclosed {kind : IssueKind} (h : kind.isUnclosed = true) :
    kind.code = "unclosed_tag" := by
  cases kind with
  | unclosedTag => rfl
  | _ => cases h

/-- What a policy that permits the issues of open elements only plans: the closing tags of the
elements on the stack. -/
theorem RepairPlan.fixes_ofIssues_closers
    (hpolicy : ∀ code ∈ IssueKind.allCodes, policy.permits code = (code == "unclosed_tag"))
    (t : Text) : (ofIssues policy (analyze t)).fixes =
      (Balance.openAtEnd (scan t).tags).map TagToken.plannedCloser := by
  have hplaced : (ofIssues policy (analyze t)).fixes.filter (·.fix.position?.isSome) = [] := by
    rw [List.filter_eq_nil_iff]
    intro planned hplanned
    obtain ⟨i, hi, hfix, hpermits⟩ := exists_issue_of_mem_fixes hplanned
    rw [hpolicy i.code i.kind.code_mem_allCodes, beq_iff_eq] at hpermits
    have hcloser : ∃ name, planned.fix = .closeElement name := by
      obtain ⟨name, cause, hkind⟩ := i.kind.exists_of_code_unclosed hpermits
      unfold Issue.fix? at hfix
      rw [hkind] at hfix
      split at hfix
      · cases cause with
        | endOfDocument => exact ⟨name, (Option.some.inj hfix).symm⟩
        | _ => cases hfix
      · cases hfix
    obtain ⟨name, hname⟩ := hcloser
    rw [hname]
    exact Bool.false_ne_true
  have hdeclarations : (scan t).plannedDeclarations policy = [] := by
    have hall : ∀ prolog doctype declared, ∀ a ∈ declarationFixes prolog doctype declared,
        a.code ∈ IssueKind.allCodes ∧ a.code ≠ "unclosed_tag" := by
      decide
    rw [Scan.plannedDeclarations, List.filter_eq_nil_iff]
    intro planned hplanned
    obtain ⟨hcode, hne⟩ := hall _ _ _ planned hplanned
    rw [hpolicy _ hcode, beq_eq_false_iff_ne.mpr hne]
    exact Bool.false_ne_true
  rw [fixes_eq_append, hplaced, hdeclarations, List.nil_append, List.append_nil,
    Scan.plannedClosers, hpolicy _ (by decide), if_pos (beq_self_eq_true _)]

/-- When only elements left open have tags without their counterpart, the tags reveal no other
one. -/
theorem isUnclosed_of_mem_revealed (hopen : ∀ i ∈ analyze t, i.code = "unclosed_tag" →
      ∃ name, i.kind = .unclosedTag name .endOfDocument) {fault : BalanceFault}
    (hfault : fault ∈ Balance.revealed [] (scan t).tags) : fault.kind.isUnclosed = false := by
  rw [← Bool.not_eq_true]
  intro hunclosed
  have hkind : fault.kind ∈ ((Balance.faults (scan t).tags).map (·.kind)).filter
      IssueKind.isUnclosed := by
    rw [Balance.faults_eq]
    exact List.mem_filter.mpr
      ⟨List.mem_map_of_mem (List.mem_append_left _ hfault), hunclosed⟩
  have hissue := ((scan t).perm_map_kind_balance
    fun _ => IssueKind.foundBy_of_isUnclosed).mem_iff.mpr hkind
  obtain ⟨i, hi, hkind⟩ := List.mem_map.mp hissue
  obtain ⟨hi, hunclosed⟩ := List.mem_filter.mp hi
  obtain ⟨name, hname⟩ := hopen i hi (IssueKind.code_of_isUnclosed hunclosed)
  have hnone := List.filter_eq_nil_iff.mp (Balance.filter_isLeftOpen_revealed [] (scan t).tags)
    fault hfault
  rw [← hkind, hname] at hnone
  exact hnone rfl

/-- Every closing tag that is planned is applied. -/
theorem applyFixes_closers (frames : List TagToken) (t : Text) :
    (RepairPlan.applyFixes (frames.map TagToken.plannedCloser) t).2 =
      (frames.map TagToken.plannedCloser).map PlannedFix.applied := by
  induction frames generalizing t with
  | nil => rfl
  | cons frame frames ih => exact congrArg (_ :: ·) (ih _)

/-- Whether the missing closing tags of a document all go to its end, the sections of which are
closed. -/
structure ClosesAtEnd (t : Text) : Prop where
  /-- What is put at the end of the document does not get into a section. -/
  closed : Balance.openAtEnd (scan t).tags ≠ [] → ∀ s ∈ hiddenSections t, IsClosed s
  /-- No closing tag is put before another one. -/
  unanchored : Fix.Unanchored ((Balance.openAtEnd (scan t).tags).map (·.name)) t

/-- When the only tags without their counterpart are those of the elements left open at the end, and
their closing tags all go to the end, a pass that is permitted these issues only puts them in, the
innermost element first, and the document has no tag without its counterpart any more. -/
theorem code_ne_unclosed_applyPass
    (hpolicy : ∀ code ∈ IssueKind.allCodes, policy.permits code = (code == "unclosed_tag"))
    (hopen : ∀ i ∈ analyze t, i.code = "unclosed_tag" →
      ∃ name, i.kind = .unclosedTag name .endOfDocument)
    (hend : ClosesAtEnd t) :
    let r := applyPass policy (analyze t) t
    r.2 = ((Balance.openAtEnd (scan t).tags).map TagToken.plannedCloser).map PlannedFix.applied ∧
      ∀ i ∈ analyze r.1, i.code ≠ "unclosed_tag" := by
  have happlies := applyFixes_closers (Balance.openAtEnd (scan t).tags) t
  have hpass : applyPass policy (analyze t) t = RepairPlan.applyFixes
      ((Balance.openAtEnd (scan t).tags).map TagToken.plannedCloser) t :=
    congrArg (RepairPlan.applyFixes · t) (RepairPlan.fixes_ofIssues_closers hpolicy t)
  dsimp only
  rw [hpass]
  refine ⟨happlies, fun i hi hcode => ?_⟩
  obtain ⟨name, cause, hkind⟩ := i.kind.exists_of_code_unclosed hcode
  have htags : ∀ frame ∈ Balance.openAtEnd (scan t).tags, frame ∈ (scan t).tags := fun frame h =>
    (Balance.reverse_openAtEnd_sublist _).subset (List.mem_reverse.mpr h)
  have houtline := map_outline_applyFixes (fun frame h => isTagName_of_mem_tags (htags frame h))
    hend.closed hend.unanchored
  have hlower : (Balance.openAtEnd (scan t).tags).map (fun frame =>
      (TagKind.closing, Text.toLowerAscii frame.name)) =
      (Balance.openAtEnd (scan t).tags).map fun frame => (.closing, frame.name) := by
    refine List.map_congr_left fun frame hframe => ?_
    obtain ⟨found, -, rfl⟩ := List.mem_map.mp (htags frame hframe)
    exact congrArg _ (Text.toLowerAscii_toLowerAscii _)
  rw [hlower] at houtline
  have hkinds := Balance.map_kind_faults_closers houtline
  have hissue : i.kind ∈ ((analyze _).filter (·.kind.isUnclosed)).map (·.kind) :=
    List.mem_map_of_mem (List.mem_filter.mpr ⟨hi, by rw [hkind]; rfl⟩)
  have hfault := ((scan _).perm_map_kind_balance
    fun _ => IssueKind.foundBy_of_isUnclosed).mem_iff.mp hissue
  rw [hkinds] at hfault
  obtain ⟨hfault, hunclosed⟩ := List.mem_filter.mp hfault
  obtain ⟨fault, hfault, heq⟩ := List.mem_map.mp hfault
  rw [← heq, isUnclosed_of_mem_revealed hopen hfault] at hunclosed
  cases hunclosed

/-- A paragraph, the body and the root are left open, with a comment between them. -/
theorem code_ne_unclosed_applyPass_paragraph :
    let policy : RepairPolicy := { allow := ["unclosed_tag"] }
    let t := "<html><body><!-- <b> -->\n<p> ".toList
    (∀ code ∈ IssueKind.allCodes, policy.permits code = (code == "unclosed_tag")) ∧
      (∀ i ∈ analyze t, i.code = "unclosed_tag" →
        ∃ name, i.kind = .unclosedTag name .endOfDocument) ∧ ClosesAtEnd t ∧
      let r := applyPass policy (analyze t) t
      r.2.map (·.description) =
          ["Inserted missing </p>", "Inserted missing </body>", "Inserted missing </html>"] ∧
        ∀ i ∈ analyze r.1, i.code ≠ "unclosed_tag" := by
  intro policy t
  have hpolicy : ∀ code ∈ IssueKind.allCodes,
      policy.permits code = (code == "unclosed_tag") := by
    decide +kernel
  have hkinds : ∀ i ∈ (scan t).foundIssues, i.code = "unclosed_tag" →
      i.kind ∈ ["html", "body", "p"].map fun name => .unclosedTag name.toList .endOfDocument := by
    decide +kernel
  have hopen : ∀ i ∈ analyze t, i.code = "unclosed_tag" →
      ∃ name, i.kind = .unclosedTag name .endOfDocument := by
    intro i hi hcode
    obtain ⟨name, -, hname⟩ := List.mem_map.mp (hkinds i (mem_analyze_iff.mp hi) hcode)
    exact ⟨_, hname.symm⟩
  have hclosed : ∀ s ∈ hiddenSections t, IsClosed s := by
    have hcomment : hiddenSections t = ["<!-- <b> -->".toList] := by
      decide +kernel
    rw [hcomment, List.forall_mem_singleton]
    exact ⟨.comment, " <b> ".toList, rfl⟩
  have hend : ClosesAtEnd t := ⟨fun _ => hclosed, by decide +kernel, by decide +kernel⟩
  obtain ⟨happlied, hnone⟩ := code_ne_unclosed_applyPass hpolicy hopen hend
  refine ⟨hpolicy, hopen, hend, ?_, hnone⟩
  rw [happlied]
  decide +kernel

/-- A body that is left open inside of another element. -/
def enclosedBodyDocument : Text :=
  canonicalProlog ++ '\n' :: (canonicalDoctype ++
    "\n<html xmlns=\"http://www.w3.org/1999/xhtml\"><div><body>".toList)

/-- The closing tag of the other element is put before that of the body, which comes first. -/
theorem not_closed_enclosedBodyDocument : ¬ ∀ (policy : RepairPolicy) (t : Text),
    (∀ code ∈ IssueKind.allCodes, policy.permits code = (code == "unclosed_tag")) →
      (∀ i ∈ analyze t, i.code = "unclosed_tag" →
        ∃ name, i.kind = .unclosedTag name .endOfDocument) →
        ∀ i ∈ analyze (applyPass policy (analyze t) t).1, i.code ≠ "unclosed_tag" := by
  intro h
  have hpolicy : ∀ code ∈ IssueKind.allCodes,
      RepairPolicy.permits { allow := ["unclosed_tag"] } code = (code == "unclosed_tag") := by
    decide +kernel
  have hkinds : ∀ i ∈ (scan enclosedBodyDocument).foundIssues, i.code = "unclosed_tag" →
      i.kind ∈ ["html", "div", "body"].map
        fun name => .unclosedTag name.toList .endOfDocument := by
    decide +kernel
  have hopen : ∀ i ∈ analyze enclosedBodyDocument, i.code = "unclosed_tag" →
      ∃ name, i.kind = .unclosedTag name .endOfDocument := by
    intro i hi hcode
    obtain ⟨name, -, hname⟩ := List.mem_map.mp (hkinds i (mem_analyze_iff.mp hi) hcode)
    exact ⟨_, hname.symm⟩
  have hpass : applyPass { allow := ["unclosed_tag"] } (analyze enclosedBodyDocument)
      enclosedBodyDocument = RepairPlan.applyFixes ((Balance.openAtEnd
        (scan enclosedBodyDocument).tags).map TagToken.plannedCloser) enclosedBodyDocument :=
    congrArg (RepairPlan.applyFixes · _) (RepairPlan.fixes_ofIssues_closers hpolicy _)
  have hnone := h _ _ hpolicy hopen
  rw [hpass] at hnone
  let i := classify true (.unclosedTag "body".toList .unexpectedClose) (some ⟨5, 1⟩)
  exact hnone i (mem_analyze_iff.mpr (by decide +kernel)) rfl

end Passes

end MarkupRepair
