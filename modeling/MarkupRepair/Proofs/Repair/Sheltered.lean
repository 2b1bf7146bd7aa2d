import MarkupRepair.Proofs.Markup.Apart
import MarkupRepair.Proofs.Markup.Landmarks
import MarkupRepair.Proofs.Markup.Tokens
import MarkupRepair.Proofs.Repair.Edits
import MarkupRepair.Proofs.Repair.Sources

/-!
# Edits outside of the sections

Where the sections of a text are closed and stand between tags, a place in the text is in none of
them when the text is cut there. What a fix does from such a place on leaves the sections as they
are and between tags, and so does a closing tag that is put there.
-/

namespace MarkupRepair

/-- Whether the sections of a text are closed and stand between tags. -/
structure Sheltered (t : Text) : Prop where
  /-- Every section ends with the closer of its own kind. -/
  closed : ∀ s ∈ hiddenSections t, IsClosed s
  /-- Every section stands between tags. -/
  between : BetweenTags t

/-- Whether a text has the sections of another, between tags. -/
def KeepsSections (t next : Text) : Prop :=
  hiddenSections next = hiddenSections t ∧ BetweenTags next

/-- A text with the sections of a sheltered one, between tags, is sheltered. -/
theorem KeepsSections.sheltered {t next : Text} (h : KeepsSections t next) (ht : Sheltered t) :
    Sheltered next :=
  ⟨h.1 ▸ ht.closed, h.2⟩

theorem KeepsSections.refl {t : Text} (h : Sheltered t) : KeepsSections t t := ⟨rfl, h.between⟩

theorem KeepsSections.trans {t between next : Text} (h : KeepsSections t between)
    (h' : KeepsSections between next) : KeepsSections t next :=
  ⟨h'.1.trans h.1, h'.2⟩

/-- A closed section begins with an opening angle bracket and ends with a closing one. -/
theorem IsClosed.exists_eq {s : Text} (h : IsClosed s) :
    ∃ w, s = '<' :: (w ++ ['>']) := by
  obtain ⟨kind, content, rfl⟩ := h
  cases kind with
  | comment =>
      exact ⟨"!--".toList ++ content ++ "--".toList, by simp [HiddenKind.opener, HiddenKind.closer]⟩
  | cdata =>
      exact ⟨"![CDATA[".toList ++ content ++ "]]".toList,
        by simp [HiddenKind.opener, HiddenKind.closer]⟩

namespace Segment

/-- Whether a text is cut into segments at the place between two parts of it. -/
structure CutAt (a b : Text) (l r : List Segment) : Prop where
  /-- The segments are read as such. -/
  cut : WellCut (l ++ r)
  /-- Those before the place are the first part. -/
  before : writtenAll l = a
  /-- Those after it are the second. -/
  after : writtenAll r = b
  /-- The sections before the place are closed. -/
  closed : ∀ s, hidden s ∈ l → IsClosed s
  /-- They are read the same whatever comes after them. -/
  reads : ∀ s, hidden s ∈ l → ∀ later, ReadsHidden s later

/-- Whether no section reaches over the place between two parts of a text. -/
def CutsAt (a b : Text) : Prop := ∃ l r, CutAt a b l r

namespace CutsAt

variable {a b x y z : Text} {c d : Char}

/-- Plain text after the place can be exchanged. -/
theorem keepsSections (h : CutsAt a (x ++ b)) (hbetween : BetweenTags (a ++ (x ++ b)))
    (hx : OpensNothing x) (hy : Exchanges x y) :
    KeepsSections (a ++ (x ++ b)) (a ++ (y ++ b)) := by
  obtain ⟨l, r, hcut, rfl, hr, -, hreads⟩ := h
  obtain ⟨r, rfl, rfl⟩ := hcut.of_append.exists_eq_map_plain_append hx hr
  exact hcut.exchange_sections hreads hbetween hy

/-- No section reaches over the end of plain text after the place either. -/
theorem forward (h : CutsAt a (x ++ b)) (hx : OpensNothing x) : CutsAt (a ++ x) b := by
  obtain ⟨l, r, hcut, rfl, hr, hclosed, hreads⟩ := h
  obtain ⟨r, rfl, rfl⟩ := hcut.of_append.exists_eq_map_plain_append hx hr
  refine ⟨l ++ x.map plain, r, ?_, by simp, rfl, by simpa using hclosed, by simpa using hreads⟩
  rwa [List.append_assoc]

/-- A section ends with a bracket, so none ends with another character in front of the place. -/
theorem back (h : CutsAt (a ++ [c]) b) (hc : c ≠ '>') : CutsAt a (c :: b) := by
  obtain ⟨l, r, hcut, hl, rfl, hclosed, hreads⟩ := h
  rcases List.eq_nil_or_concat' l with rfl | ⟨l, s, rfl⟩
  · exact absurd hl.symm (by simp)
  · rw [writtenAll_append] at hl
    cases s with
    | plain d =>
        obtain ⟨rfl, hd⟩ := List.append_inj' hl rfl
        obtain rfl := (List.cons.inj hd).1
        exact ⟨l, plain d :: r, by simpa using hcut, rfl, rfl,
          fun s hs => hclosed s (List.mem_append_left _ hs),
          fun s hs => hreads s (List.mem_append_left _ hs)⟩
    | hidden s =>
        obtain ⟨w, rfl⟩ := (hclosed s (by simp)).exists_eq
        have hend : writtenAll l ++ '<' :: w ++ ['>'] = a ++ [c] := by
          simpa [writtenAll, written] using hl
        exact absurd (List.cons.inj (List.append_inj' hend rfl).2).1.symm hc

/-- Whether no section reaches over the place does not depend on what comes after it, when that
opens no section and does not complete an opener. -/
theorem exchange (h : CutsAt a b) (hd : d ∉ openerTail) (hx : OpensNothing (d :: x)) (z : Text) :
    CutsAt a (d :: x ++ z) := by
  obtain ⟨l, r, hcut, rfl, -, hclosed, hreads⟩ := h
  obtain ⟨rest, hrest, rfl, -⟩ := exists_wellCut z
  exact ⟨l, (d :: x).map plain ++ rest, hcut.replace hrest hreads hd hx, rfl, by simp, hclosed,
    hreads⟩

end CutsAt

/-- Text without brackets is exchanged for text without brackets. -/
theorem Exchanges.of_plain {d : Char} {x w : Text} (hd : d ∉ openerTail) (hw : '<' ∉ d :: w)
    (hsame : brackets (d :: w) = brackets x) : Exchanges x (d :: w) :=
  ⟨⟨d, w, rfl, hd⟩, opensNothing_of_not_mem hw, Or.inl hsame⟩

/-- Text that two brackets enclose is exchanged for any other. -/
theorem Exchanges.of_framed {x u w v : Text} (hd : ∃ d r, u ++ '<' :: (w ++ '>' :: v) = d :: r ∧
      d ∉ openerTail) (hy : OpensNothing (u ++ '<' :: (w ++ '>' :: v)))
    (hu : brackets u = []) (hv : brackets v = []) :
    Exchanges x (u ++ '<' :: (w ++ '>' :: v)) := by
  refine ⟨hd, hy, Or.inr ⟨?_, ?_⟩⟩
  · rw [brackets_append, hu, List.nil_append, brackets_opening_cons, List.head?_cons]
  · rw [brackets_append, hu, List.nil_append, brackets_opening_cons, brackets_append,
      brackets_closing_cons, hv, ← List.cons_append, List.getLast?_concat]

end Segment

namespace Sheltered

variable {t a b front : Text} {d : Char}

/-- The segments of a text whose sections are closed. -/
theorem exists_wellCut (h : Sheltered t) : ∃ segments, Segment.WellCut segments ∧
    Segment.writtenAll segments = t ∧ (∀ s, Segment.hidden s ∈ segments → IsClosed s) ∧
    ∀ s, Segment.hidden s ∈ segments → ∀ later, ReadsHidden s later := by
  obtain ⟨segments, hcut, rfl, hreads⟩ := Segment.exists_wellCut t
  have hclosed : ∀ s, Segment.hidden s ∈ segments → IsClosed s := by
    intro s hs
    refine h.closed s ?_
    rw [hcut.hiddenSections_eq]
    exact List.mem_filterMap.mpr ⟨_, hs, rfl⟩
  exact ⟨segments, hcut, rfl, hclosed, fun s hs => hreads s hs (hclosed s hs)⟩

/-- A section that reaches over a place begins before it with an opening bracket and ends after it
with a closing one, and no bracket closes after the section before one opens. -/
theorem cutsAt (h : Sheltered (a ++ b))
    (hreach : ∀ u v rest, ('<' :: u) ++ (v ++ ['>']) ∈ hiddenSections (a ++ b) →
      ('<' :: u) <:+ a → b = v ++ ['>'] ++ rest → (∀ q z, rest = q ++ '>' :: z → '<' ∈ q) →
        False) : Segment.CutsAt a b := by
  obtain ⟨segments, hcut, ht, hclosed, hreads⟩ := h.exists_wellCut
  rcases Segment.split_of_append ht with
    ⟨l, r, rfl, rfl, rfl⟩ | ⟨l, s₁, s₂, r, rfl, h₁, h₂, rfl, rfl⟩
  · exact ⟨l, r, hcut, rfl, rfl, fun s hs => hclosed s (List.mem_append_left _ hs),
      fun s hs => hreads s (List.mem_append_left _ hs)⟩
  · exfalso
    have hsection : Segment.hidden (s₁ ++ s₂) ∈ l ++ Segment.hidden (s₁ ++ s₂) :: r :=
      List.mem_append_right _ List.mem_cons_self
    have hmem : s₁ ++ s₂ ∈ hiddenSections (Segment.writtenAll l ++ s₁ ++
        (s₂ ++ Segment.writtenAll r)) := by
      rw [← ht, hcut.hiddenSections_eq]
      exact List.mem_filterMap.mpr ⟨_, hsection, rfl⟩
    obtain ⟨w, hw⟩ := (hclosed _ hsection).exists_eq
    obtain ⟨u, rfl⟩ : ∃ u, s₁ = '<' :: u := by
      cases s₁ with
      | nil => exact absurd rfl h₁
      | cons c u => exact ⟨u, by rw [(List.cons.inj hw).1]⟩
    obtain ⟨v, rfl⟩ : ∃ v, s₂ = v ++ ['>'] := by
      obtain hnil | ⟨v, c, rfl⟩ := List.eq_nil_or_concat' s₂
      · exact absurd hnil h₂
      · rw [← List.append_assoc, ← List.cons_append] at hw
        exact ⟨v, by rw [List.append_inj_right' hw rfl]⟩
    refine hreach u v (Segment.writtenAll r) hmem (List.suffix_append _ _) rfl ?_
    intro q z hq
    have hbetween := h.between
    rw [BetweenTags, ← ht, hcut.landmarks_eq, List.filterMap_append] at hbetween
    exact hcut.of_append.mem_of_hidden hbetween.right_of_append hq

/-- No section reaches over the place of a character of the masked text. -/
theorem exists_cutsAt_of_mask (h : Sheltered t) (hmask : mask t = a ++ d :: b) (hblank : d ≠ ' ')
    (hfeed : d ≠ '\n') :
    ∃ u w, t = u ++ w ∧ Text.size u = Text.size a ∧ Segment.CutsAt u w := by
  obtain ⟨segments, hcut, rfl, hclosed, hreads⟩ := h.exists_wellCut
  rw [hcut.mask_eq] at hmask
  obtain ⟨l, r, rfl, rfl, rfl⟩ := Segment.exists_plain_of_maskedAll hmask hblank hfeed
  exact ⟨Segment.writtenAll l, Segment.writtenAll (Segment.plain d :: r),
    Segment.writtenAll_append _ _, (Segment.size_maskedAll l).symm, l, _, hcut, rfl, rfl,
    fun s hs => hclosed s (List.mem_append_left _ hs),
    fun s hs => hreads s (List.mem_append_left _ hs)⟩

end Sheltered

namespace Fix

variable {front after changed : Text} {before : Option Char}

theorem brackets_requote (value : Text) : brackets (requote value) = brackets value := by
  have hquote : ∀ c : Char, (if (c != '"' && c != '\'') = true then
      Landmark.ofMarked? (c, .plain) else none) = Landmark.ofMarked? (c, .plain) := by
    intro c
    split
    next => rfl
    next hc =>
      simp only [Bool.and_eq_true, bne_iff_ne, ne_eq, not_and, not_not] at hc
      by_cases hdouble : c = '"'
      · rw [hdouble]
        rfl
      · rw [hc hdouble]
        rfl
  have hfilter : brackets (value.filter fun c => c != '"' && c != '\'') = brackets value := by
    rw [brackets, List.filterMap_filter]
    exact List.filterMap_congr fun c _ => hquote c
  rw [requote, brackets_cons_of_ne (by decide) (by decide), brackets_append, hfilter]
  exact List.append_nil _

/-- Quoting a value without opening brackets keeps the sections. -/
theorem keepsSections_quoteAt {name value : Text} (hbetween : BetweenTags (front ++ after))
    (hcut : Segment.CutsAt front after) (hname : '<' ∉ name) (hvalue : '<' ∉ value)
    (hedit : quoteAt name value before after = some changed) :
    KeepsSections (front ++ after) (front ++ changed) := by
  obtain ⟨space, gap, tail, rfl, rfl, -, hspace, hgap⟩ := exists_of_quoteAt hedit
  have hplain := not_mem_assignment hname hspace hgap (by decide) (by decide)
  have hvalueCut := hcut.forward (Segment.opensNothing_of_not_mem hplain)
  rw [← List.append_assoc] at hbetween ⊢
  rw [← List.append_assoc front _ (requote value ++ tail)]
  refine hvalueCut.keepsSections hbetween (Segment.opensNothing_of_not_mem hvalue) ?_
  refine .of_plain (by decide) ?_ (brackets_requote value)
  simp [hvalue]

/-- Collapsing a run of quotes keeps the sections. -/
theorem keepsSections_collapseAt {name : Text} {quotes : Nat}
    (hbetween : BetweenTags (front ++ after)) (hcut : Segment.CutsAt front after)
    (hname : '<' ∉ name) (hedit : collapseAt name quotes before after = some changed) :
    KeepsSections (front ++ after) (front ++ changed) := by
  obtain ⟨space, gap, run, tail, rfl, rfl, -, hspace, hgap, hrun⟩ := exists_of_collapseAt hedit
  have hplain := not_mem_assignment hname hspace hgap (by decide) (by decide)
  have hnone : ∀ c, c ≠ '"' → c ∉ run := fun c hc hmem => hc (hrun c hmem)
  have hempty : brackets run = [] := brackets_eq_nil (hnone _ (by decide)) (hnone _ (by decide))
  have hrunCut := hcut.forward (Segment.opensNothing_of_not_mem hplain)
  rw [← List.append_assoc] at hbetween ⊢
  rw [← List.append_assoc front _ (_ ++ tail)]
  refine hrunCut.keepsSections hbetween
    (Segment.opensNothing_of_not_mem (hnone _ (by decide))) ?_
  cases noValue tail with
  | true => exact .of_plain (by decide) (by decide) hempty.symm
  | false => exact .of_plain (by decide) (by decide) hempty.symm

/-- Completing a reference keeps the sections. -/
theorem keepsSections_terminateAt {name : Text} (hbetween : BetweenTags (front ++ after))
    (hcut : Segment.CutsAt front after) (hname : '<' ∉ name)
    (hedit : terminateAt ('&' :: name) after = some changed) :
    KeepsSections (front ++ after) (front ++ changed) := by
  obtain ⟨completion, tail, rfl, rfl, hcompletion, -⟩ := exists_of_terminateAt hedit
  have hend : Segment.CutsAt (front ++ '&' :: name) ([] ++ tail) :=
    hcut.forward (Segment.opensNothing_of_not_mem (by simp [hname]))
  have hsplit : ∀ w : Text, front ++ ('&' :: name ++ w) = front ++ '&' :: name ++ w := by
    simp
  rw [hsplit, ← List.nil_append tail] at hbetween
  rw [hsplit, hsplit]
  refine hend.keepsSections hbetween (Segment.opensNothing_of_not_mem (by simp)) ?_
  rw [hcompletion]
  split
  · exact .of_plain (by decide) (by decide) rfl
  · exact .of_plain (by decide) (by decide) rfl

/-- Expanding a self-closing tag keeps the sections. -/
theorem keepsSections_expandAt {name : Text} (hbetween : BetweenTags (front ++ after))
    (hcut : Segment.CutsAt front after) (hedit : expandAt name after = some changed) :
    KeepsSections (front ++ after) (front ++ changed) := by
  obtain ⟨tag, rest, htag, -, rfl, rfl⟩ := exists_of_expandAt hedit
  obtain ⟨r, -, hread⟩ := TagText.exists_read?_of_atStart? htag
  refine hcut.keepsSections hbetween (TagText.opensNothing_toText hread) ?_
  have hopens := TagText.opensNothing_expanded hread
  have hy := Segment.Exchanges.of_framed (x := tag.toText) (u := [])
    (w := tag.name ++ trimEnd tag.body ++ ['>', '<', '/'] ++ tag.name) (v := [])
    ⟨'<', _, rfl, by decide⟩ ?_ rfl rfl
  · simpa using hy
  · simpa [TagText.expanded] using hopens

/-- A fix that finds what it is for outside of the sections keeps them. -/
theorem keepsSections_editAt {fix : Fix} (h : Sheltered (front ++ after))
    (hcut : Segment.CutsAt front after) (hfix : ∃ source, fix.BelongsTo (scan source))
    (hedit : fix.editAt before after = some changed) :
    KeepsSections (front ++ after) (front ++ changed) := by
  obtain ⟨source, hbelongs⟩ := hfix
  cases fix with
  | quoteAttribute p name value =>
      obtain ⟨tag, htag, a, ha, -, rfl, rfl, -⟩ := hbelongs
      exact keepsSections_quoteAt h.between hcut
        (not_mem_of_class (nameChars_of_mem_attributes htag ha) (by decide))
        (bracket_not_mem_raw htag ha) hedit
  | collapseQuotes p name quotes =>
      obtain ⟨tag, htag, a, ha, -, rfl, -⟩ := hbelongs
      exact keepsSections_collapseAt h.between hcut
        (not_mem_of_class (nameChars_of_mem_attributes htag ha) (by decide)) hedit
  | terminateEntity p entity =>
      obtain ⟨e, he, -, rfl, -⟩ := hbelongs
      obtain ⟨name, hname, hchars⟩ := exists_text_eq he
      rw [hname] at hedit
      exact keepsSections_terminateAt h.between hcut (not_mem_of_class hchars (by decide)) hedit
  | expandSelfClosing p name => exact keepsSections_expandAt h.between hcut hedit
  | _ => cases hedit

section Closing

variable {t : Text}

/-- A mark that is found in a text stands there. -/
theorem exists_of_find? {mark : Text} {offset : Nat} (h : Text.find? mark t = some offset) :
    ∃ a b, t = a ++ (mark ++ b) ∧ offset = Text.size a := by
  induction t generalizing offset with
  | nil =>
      unfold Text.find? at h
      split at h
      next hmark =>
        obtain rfl := Option.some.inj h
        exact ⟨[], [], by rw [List.isEmpty_iff.mp hmark]; rfl, rfl⟩
      next => cases h
  | cons c r ih =>
      unfold Text.find? at h
      split at h
      next hstarts =>
        obtain rfl := Option.some.inj h
        obtain ⟨b, hb⟩ := Text.startsWith_iff.mp hstarts
        exact ⟨[], b, hb.symm, rfl⟩
      next =>
        obtain ⟨o, ho, rfl⟩ := Option.map_eq_some_iff.mp h
        obtain ⟨a, b, rfl, rfl⟩ := ih ho
        exact ⟨c :: a, b, rfl, rfl⟩

/-- The place before which a closing tag is put has the closing tag of the body or of the root after
it. -/
theorem exists_of_closeAnchor? {tag : Text} {offset : Nat} (h : closeAnchor? t tag = some offset) :
    ∃ name ∈ ["body".toList, "html".toList], ∃ a b,
      t = a ++ (closingTag name ++ b) ∧ offset = Text.size a := by
  unfold closeAnchor? at h
  dsimp only at h
  split at h
  next => cases h
  next =>
    split at h
    next => exact ⟨_, by simp, exists_of_find? h⟩
    next =>
      rcases Option.or_eq_some_iff.mp h with h | ⟨-, h⟩
      · exact ⟨_, by simp, exists_of_find? h⟩
      · exact ⟨_, by simp, exists_of_find? h⟩

/-- A closing tag between texts without an opening bracket opens no section. -/
theorem opensNothing_closingTag {tag u v : Text} (htag : '<' ∉ tag) (hu : '<' ∉ u)
    (hv : '<' ∉ v) : Segment.OpensNothing (u ++ '<' :: ('/' :: tag ++ '>' :: v)) := by
  refine Segment.opensNothing_of_freeOfDeclarations ?_
  refine (freeOfDeclarations_of_not_mem hu).append ⟨fun _ => ⟨'/', _, rfl, by decide⟩, ?_⟩
  exact freeOfDeclarations_of_not_mem (by simp [htag, hv])

/-- A closing tag that is put outside of the sections keeps them. -/
theorem keepsSections_insert_closingTag {tag a b : Text} (hbetween : BetweenTags (a ++ b))
    (hcut : Segment.CutsAt a b) (htag : '<' ∉ tag) :
    KeepsSections (a ++ b) (a ++ ((closingTag tag ++ ['\n']) ++ b)) := by
  have hplace : Segment.CutsAt a ([] ++ b) := hcut
  refine hplace.keepsSections hbetween (Segment.opensNothing_of_not_mem (by simp)) ?_
  have hwritten : closingTag tag ++ ['\n'] = [] ++ '<' :: ('/' :: tag ++ '>' :: ['\n']) := by
    simp [closingTag]
  rw [hwritten]
  exact .of_framed ⟨'<', _, rfl, by decide⟩
    (opensNothing_closingTag htag (by simp) (by decide)) rfl rfl

/-- A closing tag on a line of its own in place of the white space at the end of a text keeps the
sections. -/
theorem keepsSections_append_closingTag {tag kept blanks : Text} (htag : '<' ∉ tag)
    (hblanks : ∀ c ∈ blanks, isWhiteSpace c = true) (h : Sheltered (kept ++ blanks)) :
    KeepsSections (kept ++ blanks) (kept ++ ['\n'] ++ closingTag tag ++ ['\n']) := by
  have hcut : Segment.CutsAt kept blanks := by
    refine h.cutsAt fun u v rest _ _ hrest _ => ?_
    refine not_mem_of_class hblanks (d := '>') (by decide) ?_
    rw [hrest]
    simp
  have hwritten : kept ++ ['\n'] ++ closingTag tag ++ ['\n'] =
      kept ++ ((['\n'] ++ '<' :: ('/' :: tag ++ '>' :: ['\n'])) ++ []) := by
    simp [closingTag]
  rw [← List.append_nil blanks] at hcut h
  rw [hwritten, ← List.append_nil blanks]
  refine hcut.keepsSections h.between
    (Segment.opensNothing_of_not_mem (not_mem_of_class hblanks (by decide))) ?_
  exact .of_framed ⟨'\n', _, rfl, by decide⟩
    (opensNothing_closingTag htag (by decide) (by decide)) rfl rfl

/-- Closing an element keeps the sections when its place is outside of them. -/
theorem keepsSections_applyClose {tag : Text} (h : Sheltered t) (htag : '<' ∉ tag)
    (hplace : ∀ a b, t = a ++ b → closeAnchor? t tag = some (Text.size a) →
      Segment.CutsAt a b) : KeepsSections t (applyClose tag t) := by
  unfold applyClose
  split
  next offset hanchor =>
    obtain ⟨name, -, a, b, rfl, rfl⟩ := exists_of_closeAnchor? hanchor
    rw [Text.splice_insert, List.append_assoc]
    exact keepsSections_insert_closingTag h.between (hplace _ _ rfl hanchor) htag
  next =>
    obtain ⟨blanks, hblanks, hall⟩ := exists_trimEnd_append t
    generalize trimEnd t = kept at hblanks
    subst hblanks
    exact keepsSections_append_closingTag htag hall h

end Closing

end Fix

end MarkupRepair
