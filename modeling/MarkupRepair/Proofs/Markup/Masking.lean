import MarkupRepair.Proofs.Markup.Outside
import MarkupRepair.Proofs.Text.Bytes

/-!
# Masking byte by byte

Where the sections of a text are is said of the text alone: a section begins with the first opener
and ends with the first closer behind it, or with the text, and the next one is looked for from
there. The marks put the sections at these places. The masked text has every byte of the text at its
offset, but for those in sections, which are blanked and do not open a section again.
-/

namespace MarkupRepair

namespace Text

/-- A hidden character has a space for each byte, and a line feed stays. -/
theorem byte?_maskChar (c : Char) (offset : Nat) : byte? (maskChar c .within) offset =
    (String.utf8EncodeChar c)[offset]?.map blanked := by
  have hmask : maskChar c .within =
      if c = '\n' then ['\n'] else List.replicate c.utf8Size ' ' := rfl
  rw [hmask]
  by_cases hc : c = '\n'
  · subst hc
    cases offset with
    | zero => rfl
    | succ n => rfl
  · rw [if_neg hc, byte?_replicate_blank, ← String.length_utf8EncodeChar]
    by_cases hoffset : offset < (String.utf8EncodeChar c).length
    · have hfeed : (String.utf8EncodeChar c)[offset] ≠ lineFeed := by
        intro h
        apply lineFeed_not_mem_utf8EncodeChar hc
        rw [← h]
        exact List.getElem_mem hoffset
      rw [if_pos hoffset, List.getElem?_eq_getElem hoffset, Option.map_some, blanked,
        if_neg hfeed]
    · rw [if_neg hoffset, List.getElem?_eq_none (by omega), Option.map_none]

/-- Hidden characters have their bytes blanked. -/
theorem byte?_flatMap_maskChar (t : Text) (offset : Nat) :
    byte? (t.flatMap (maskChar · .within)) offset = (byte? t offset).map blanked := by
  induction t generalizing offset with
  | nil => rfl
  | cons c r ih =>
      rw [List.flatMap_cons, byte?_append, size_maskChar, byte?_maskChar, ih, byte?_cons]
      split <;> rfl

end Text

section Reading

/-- A word that occurs in a list has a first occurrence. -/
theorem exists_first_infix {α : Type} {w l : List α} (hne : w ≠ []) (h : w <:+: l) :
    ∃ front back, l = front ++ w ++ back ∧ ¬ w <:+: front := by
  induction l with
  | nil => exact absurd (List.infix_nil.mp h) hne
  | cons x l ih =>
      by_cases hstart : w <+: x :: l
      · obtain ⟨back, hback⟩ := hstart
        exact ⟨[], back, hback.symm, mt List.infix_nil.mp hne⟩
      · obtain ⟨front, back, rfl, hfirst⟩ := ih ((List.infix_cons_iff.mp h).resolve_left hstart)
        refine ⟨x :: front, back, rfl, ?_⟩
        rw [List.infix_cons_iff]
        rintro (hbegins | hbehind)
        · apply hstart
          rw [List.append_assoc]
          exact hbegins.trans (List.prefix_append (x :: front) (w ++ back))
        · exact hfirst hbehind

/-- A closer has its bracket at the end only. -/
theorem HiddenKind.exists_closer_eq (kind : HiddenKind) :
    ∃ w, kind.closer = w ++ ['>'] ∧ '>' ∉ w := by
  cases kind with
  | comment => exact ⟨['-', '-'], rfl, by simp⟩
  | cdata => exact ⟨[']', ']'], rfl, by simp⟩

/-- Behind text without the closer the closer is not met earlier. -/
theorem HiddenKind.eq_of_closer_append {kind : HiddenKind} {content w rest : Text}
    (hcontent : ¬ kind.closer <:+: content)
    (h : content ++ kind.closer = w ++ kind.closer ++ rest) : content = w := by
  obtain ⟨v, hv, hbracket⟩ := kind.exists_closer_eq
  rcases List.append_eq_append_iff.mp h with ⟨m, hw, hcloser⟩ | ⟨m, rfl, -⟩
  · rcases List.eq_nil_or_concat' rest with rfl | ⟨back, d, rfl⟩
    · rw [List.append_nil] at hcloser
      rw [hcloser] at hw
      exact (List.append_cancel_right hw).symm
    · exfalso
      rw [hv, ← List.append_assoc] at hcloser
      obtain ⟨hfront, -⟩ := List.append_inj' hcloser rfl
      rcases List.eq_nil_or_concat' m with rfl | ⟨m, e, rfl⟩
      · rw [List.append_nil] at hw
        exact hcontent ⟨w, [], by rw [List.append_nil, hw]⟩
      · rw [hv, ← List.append_assoc, ← List.append_assoc] at hw
        obtain ⟨-, he⟩ := List.append_inj' hw rfl
        obtain rfl := List.singleton_inj.mp he
        apply hbracket
        rw [hfront]
        simp
  · exact absurd ⟨w, m, rfl⟩ hcontent

/-- A section with its closer is read up to the closer. -/
theorem marksFrom_closed {kind : HiddenKind} {content : Text}
    (hcontent : ¬ kind.closer <:+: content) (later : Text) :
    marksFrom (some kind) 0 (content ++ kind.closer ++ later) =
      List.replicate (content ++ kind.closer).length .within ++ marks later := by
  rcases marksFrom_some kind (content ++ kind.closer) with ⟨-, hnone⟩ | ⟨w, rest, h, hmarks⟩
  · exact absurd (List.suffix_append content kind.closer).isInfix hnone
  · obtain rfl := HiddenKind.eq_of_closer_append hcontent h
    exact hmarks later

/-- A section without a closer is read up to the end of the text. -/
theorem marksFrom_unclosed {kind : HiddenKind} {content : Text}
    (hcontent : ¬ kind.closer <:+: content) :
    marksFrom (some kind) 0 content = List.replicate content.length .within := by
  rcases marksFrom_some kind content with ⟨hmarks, -⟩ | ⟨w, rest, rfl, -⟩
  · exact hmarks
  · exact absurd ⟨w, rest, rfl⟩ hcontent

end Reading

/-- Whether spans are those of the sections of a text that begins at an offset. An opener has its
bracket at the beginning only and a closer at the end only, so openers do not overlap and closers do
not: what comes first is in front of all others as soon as the text before it has none. -/
inductive SectionedBy : Nat → Text → List Span → Prop where
  /-- A text without an opener has no section. -/
  | plain {offset : Nat} {t : Text} (h : ∀ kind : HiddenKind, ¬ kind.opener <:+: t) :
      SectionedBy offset t []
  /-- A section begins with the first opener and ends with the first closer behind the opener. -/
  | closed {offset : Nat} {before content rest : Text} {spans : List Span} {kind : HiddenKind}
      (hbefore : ∀ other : HiddenKind, ¬ other.opener <:+: before)
      (hcontent : ¬ kind.closer <:+: content)
      (hrest : SectionedBy (offset + Text.size before +
        Text.size (kind.opener ++ (content ++ kind.closer))) rest spans) :
      SectionedBy offset (before ++ (kind.opener ++ (content ++ kind.closer) ++ rest))
        (⟨offset + Text.size before, offset + Text.size before +
          Text.size (kind.opener ++ (content ++ kind.closer))⟩ :: spans)
  /-- A section without a closer ends with the text. -/
  | unclosed {offset : Nat} {before content : Text} {kind : HiddenKind}
      (hbefore : ∀ other : HiddenKind, ¬ other.opener <:+: before)
      (hcontent : ¬ kind.closer <:+: content) :
      SectionedBy offset (before ++ (kind.opener ++ content))
        [⟨offset + Text.size before, offset + Text.size before +
          Text.size (kind.opener ++ content)⟩]

namespace Segment

variable {segments : List Segment} {before t : Text} {offset n : Nat} {spans : List Span}

/-- Text without an opener is plain at the end of a document and in front of a bracket. -/
theorem WellCut.map_plain_append (h : WellCut segments)
    (hbefore : ∀ kind : HiddenKind, ¬ kind.opener <:+: before)
    (hnext : writtenAll segments = [] ∨ (writtenAll segments).head? = some '<') :
    WellCut (before.map Segment.plain ++ segments) := by
  induction before with
  | nil => exact h
  | cons c before ih =>
      have hsplit : ∀ kind : HiddenKind,
          ¬ kind.opener <+: c :: before ∧ ¬ kind.opener <:+: before := fun kind =>
        not_or.mp (mt List.infix_cons_iff.mpr (hbefore kind))
      have hat : HiddenKind.at? (c :: before ++ []) = none := by
        rw [List.append_nil]
        exact HiddenKind.at?_eq_none_iff.mpr fun kind => (hsplit kind).1
      rw [List.map_cons, List.cons_append]
      refine .plain ?_ (ih fun kind => (hsplit kind).2)
      rw [writtenAll_append, writtenAll_map_plain]
      rcases hnext with hnil | hbracket
      · rw [hnil]
        exact hat
      · obtain ⟨rest, hrest⟩ := List.head?_eq_some_iff.mp hbracket
        rw [hrest]
        exact HiddenKind.at?_append_of_not_mem hat (List.cons_ne_nil c before)
          (by simp [openerTail]) rest

/-- A section and the text in front of it cut off the beginning of a text. -/
theorem WellCut.exists_hidden_front {s : Text} (h : WellCut segments)
    (hreads : ReadsHidden s (writtenAll segments))
    (hbefore : ∀ kind : HiddenKind, ¬ kind.opener <:+: before) (offset : Nat) : ∃ cut,
    WellCut cut ∧ writtenAll cut = before ++ (s ++ writtenAll segments) ∧
      Segment.spans offset cut =
        ⟨offset + Text.size before, offset + Text.size before + Text.size s⟩ ::
          Segment.spans (offset + Text.size before + Text.size s) segments := by
  obtain ⟨r, hr, -⟩ := exists_eq_cons_of_readsHidden hreads
  have hnext : (writtenAll (Segment.hidden s :: segments)).head? = some '<' := by
    rw [writtenAll_hidden_cons, hr]
    rfl
  refine ⟨before.map Segment.plain ++ Segment.hidden s :: segments,
    (WellCut.hidden hreads h).map_plain_append hbefore (.inr hnext), ?_, ?_⟩
  · rw [writtenAll_append, writtenAll_map_plain, writtenAll_hidden_cons]
  · rw [spans_append, spans_map_plain, writtenAll_map_plain, List.nil_append, Segment.spans]

/-- The sections of a text cut it into segments. -/
theorem exists_wellCut_of_sectionedBy (h : SectionedBy offset t spans) : ∃ segments,
    WellCut segments ∧ writtenAll segments = t ∧ Segment.spans offset segments = spans := by
  induction h with
  | @plain offset t hplain =>
      have hcut := WellCut.nil.map_plain_append hplain (.inl rfl)
      rw [List.append_nil] at hcut
      exact ⟨t.map plain, hcut, writtenAll_map_plain t, spans_map_plain offset t⟩
  | closed hbefore hcontent _ ih =>
      obtain ⟨segments, hcut, rfl, rfl⟩ := ih
      have hreads := readsHidden_opener_append (marksFrom_closed hcontent (writtenAll segments))
      exact hcut.exists_hidden_front hreads hbefore _
  | @unclosed offset before content kind hbefore hcontent =>
      have hmarks : marksFrom (some kind) 0 (content ++ []) =
          List.replicate content.length .within ++ marks [] := by
        rw [List.append_nil, marksFrom_unclosed hcontent]
        exact (List.append_nil _).symm
      have hcut := WellCut.nil.exists_hidden_front (readsHidden_opener_append hmarks) hbefore offset
      rw [writtenAll_nil, List.append_nil] at hcut
      exact hcut

/-- The bytes of the sections among segments are blanked, and the others are as they were. -/
theorem byte?_maskedAll (segments : List Segment) (offset n : Nat) :
    ((∃ s ∈ Segment.spans offset segments, s.Has (offset + n)) →
      (maskedAll segments).byte? n = ((writtenAll segments).byte? n).map Text.blanked) ∧
    ((∀ s ∈ Segment.spans offset segments, ¬ s.Has (offset + n)) →
      (maskedAll segments).byte? n = (writtenAll segments).byte? n) := by
  induction segments generalizing offset n with
  | nil => exact ⟨fun _ => rfl, fun _ => rfl⟩
  | cons s segments ih =>
      cases s with
      | plain c =>
          rw [maskedAll_plain_cons, writtenAll_plain_cons, Text.byte?_cons, Text.byte?_cons]
          by_cases hn : n < c.utf8Size
          · rw [if_pos hn, if_pos hn]
            refine ⟨?_, fun _ => rfl⟩
            rintro ⟨s, hs, hhas⟩
            have hlater : s ∈ Segment.spans (offset + c.utf8Size) segments := hs
            have hstart := (bounds_of_mem_spans hlater).1
            have := hhas.1
            omega
          · have hplace : offset + c.utf8Size + (n - c.utf8Size) = offset + n := by
              omega
            have hlater := ih (offset + c.utf8Size) (n - c.utf8Size)
            rw [hplace] at hlater
            rw [if_neg hn, if_neg hn]
            exact hlater
      | hidden s =>
          rw [maskedAll_hidden_cons, writtenAll_hidden_cons, Text.byte?_append, Text.byte?_append,
            size_flatMap_maskChar, Segment.spans, List.forall_mem_cons, List.exists_mem_cons_iff]
          by_cases hn : n < Text.size s
          · rw [if_pos hn, if_pos hn]
            have hhas : Span.Has ⟨offset, offset + Text.size s⟩ (offset + n) :=
              ⟨Nat.le_add_right offset n, Nat.add_lt_add_left hn offset⟩
            exact ⟨fun _ => Text.byte?_flatMap_maskChar s n, fun h => absurd hhas h.1⟩
          · have hplace : offset + Text.size s + (n - Text.size s) = offset + n := by
              omega
            have hpast : ¬ Span.Has ⟨offset, offset + Text.size s⟩ (offset + n) := fun h =>
              hn (Nat.lt_of_add_lt_add_left h.2)
            have hlater := ih (offset + Text.size s) (n - Text.size s)
            rw [hplace] at hlater
            rw [if_neg hn, if_neg hn]
            exact ⟨fun h => hlater.1 (h.resolve_left hpast), fun h => hlater.2 h.2⟩

end Segment

section Spans

variable {c : Char} {t : Text} {offset : Nat} {spans : List Span}

/-- A character that begins no section can be put in front of a text. -/
theorem SectionedBy.cons (h : SectionedBy (offset + c.utf8Size) t spans)
    (hat : HiddenKind.at? (c :: t) = none) : SectionedBy offset (c :: t) spans := by
  have hbefore : ∀ {before after : Text}, HiddenKind.at? (c :: (before ++ after)) = none →
      (∀ kind : HiddenKind, ¬ kind.opener <:+: before) →
      ∀ kind : HiddenKind, ¬ kind.opener <:+: c :: before := by
    intro before after hat hbefore kind hopener
    rcases List.infix_cons_iff.mp hopener with hbegins | hbehind
    · exact HiddenKind.at?_eq_none_iff.mp hat kind
        (hbegins.trans (List.prefix_append (c :: before) after))
    · exact hbefore kind hbehind
  cases h with
  | plain hplain =>
      rw [← List.append_nil t] at hat
      exact .plain (hbefore hat hplain)
  | closed hfront hcontent hrest =>
      rw [Nat.add_assoc offset, ← Text.size_cons] at hrest ⊢
      exact .closed (hbefore hat hfront) hcontent hrest
  | unclosed hfront hcontent =>
      rw [Nat.add_assoc offset, ← Text.size_cons]
      exact .unclosed (hbefore hat hfront) hcontent

/-- Every text has sections, none at the least. -/
theorem exists_sectionedBy (offset : Nat) (t : Text) : ∃ spans, SectionedBy offset t spans := by
  have hnil : ∀ kind : HiddenKind, ¬ kind.opener <:+: [] := by
    intro kind h
    obtain ⟨w, hw, -⟩ := kind.exists_opener_eq
    rw [List.infix_nil, hw] at h
    cases h
  induction hn : t.length using Nat.strong_induction_on generalizing offset t with
  | _ n ih =>
      subst hn
      by_cases hat : HiddenKind.at? t = none
      · cases t with
        | nil => exact ⟨[], .plain hnil⟩
        | cons c r =>
            obtain ⟨spans, hspans⟩ := ih r.length (by simp) (offset + c.utf8Size) r rfl
            exact ⟨spans, hspans.cons hat⟩
      · obtain ⟨kind, hkind⟩ := Option.ne_none_iff_exists'.mp hat
        obtain ⟨r, rfl⟩ := HiddenKind.opener_prefix_of_at? hkind
        by_cases hclosed : kind.closer <:+: r
        · have hne : kind.closer ≠ [] := by
            cases kind <;> exact List.cons_ne_nil _ _
          obtain ⟨content, rest, rfl, hcontent⟩ := exists_first_infix hne hclosed
          have hshorter : rest.length <
              (kind.opener ++ (content ++ kind.closer ++ rest)).length := by
            have := List.length_pos_iff.mpr hne
            simp only [List.length_append]
            omega
          obtain ⟨spans, hspans⟩ := ih rest.length hshorter (offset + Text.size [] +
            Text.size (kind.opener ++ (content ++ kind.closer))) rest rfl
          have hsections := SectionedBy.closed hnil hcontent hspans
          rw [List.nil_append, List.append_assoc] at hsections
          exact ⟨_, hsections⟩
        · exact ⟨_, SectionedBy.unclosed hnil hclosed⟩

/-- A text has its sections at one list of places. -/
theorem sectionedBy_iff : SectionedBy 0 t spans ↔ spans = sectionSpans t := by
  have hspans : ∀ {spans}, SectionedBy 0 t spans → spans = sectionSpans t := by
    intro spans h
    obtain ⟨segments, hcut, rfl, rfl⟩ := Segment.exists_wellCut_of_sectionedBy h
    exact hcut.sectionSpans_eq.symm
  constructor
  · exact hspans
  · rintro rfl
    obtain ⟨spans, h⟩ := exists_sectionedBy 0 t
    rw [← hspans h]
    exact h

end Spans

section Masked

variable {t : Text}

/-- Masking blanks the bytes of the sections. -/
theorem blanks_mask (t : Text) :
    Blanks (sectionSpans t) (Text.encode t) (Text.encode (mask t)) := by
  obtain ⟨segments, hcut, rfl, -⟩ := Segment.exists_wellCut t
  rw [hcut.mask_eq, hcut.sectionSpans_eq]
  have hbytes := Segment.byte?_maskedAll segments 0
  simp only [Nat.zero_add] at hbytes
  constructor
  · rw [Text.size_encode, Text.size_encode, Segment.size_maskedAll]
  · intro n
    by_cases hn : ∃ s ∈ Segment.spans 0 segments, s.Has n
    · have hbyte := (hbytes n).1 hn
      unfold Text.byte? at hbyte
      rw [hbyte, Option.map_eq_some_iff]
      simp only [Text.blanked_eq_lineFeed_iff, exists_eq_right]
    · have hbyte := (hbytes n).2 fun s hs hhas => hn ⟨s, hs, hhas⟩
      unfold Text.byte? at hbyte
      rw [hbyte]
  · exact fun n hn => (hbytes n).2 hn
  · intro s hs n hhas
    have hbyte := (hbytes n).1 ⟨s, hs, hhas⟩
    cases hwritten : (Segment.writtenAll segments).byte? n with
    | none =>
        have hsize := Text.byte?_eq_none_iff.mp hwritten
        have hstop := (Segment.bounds_of_mem_spans hs).2
        have := hhas.2
        omega
    | some b =>
        rw [hwritten, Option.map_some] at hbyte
        unfold Text.byte? at hbyte
        rw [hbyte, Option.some_inj, Option.some_inj]
        exact Text.blanked_eq_or b

/-- The masked text has no opener. -/
theorem not_opener_infix_mask (kind : HiddenKind) (t : Text) : ¬ kind.opener <:+: mask t := by
  rintro ⟨a, b, h⟩
  obtain ⟨segments, hcut, rfl, -⟩ := Segment.exists_wellCut t
  obtain ⟨w, hw, -⟩ := kind.exists_opener_eq
  have hvisible : ∀ c ∈ kind.opener, c ≠ ' ' ∧ c ≠ '\n' := by
    cases kind <;> simp [HiddenKind.opener]
  rw [hcut.mask_eq, List.append_assoc] at h
  obtain ⟨l, r, rfl, -⟩ := hcut.exists_map_plain_of_maskedAll (by simp [hw]) hvisible h.symm
  have hplain := hcut.of_append
  have hat := kind.at?_opener_append (Segment.writtenAll r)
  rw [hw, List.cons_append] at hat
  rw [hw, List.map_cons, List.cons_append] at hplain
  cases hplain with
  | plain hnone _ =>
      rw [Segment.writtenAll_append, Segment.writtenAll_map_plain, hat] at hnone
      cases hnone

/-- Text without an opener is its own masked text. -/
theorem mask_eq_self_of_not_infix (h : ∀ kind : HiddenKind, ¬ kind.opener <:+: t) :
    mask t = t := by
  have hcut := Segment.WellCut.nil.map_plain_append h (.inl rfl)
  have hmask := hcut.mask_eq
  rw [List.append_nil, Segment.writtenAll_map_plain, Segment.maskedAll_map_plain] at hmask
  exact hmask

/-- Masking a document works by slices that never fail. It blanks the sections, which begin with an
opener and end with the first closer behind it or with the document: every byte keeps its offset,
the line feeds stay, the bytes outside of the sections stay, and inside there are only spaces and
line feeds. Whatever bytes come from the document in this way, they are the UTF-8 form of the masked
text. It has no opener, and masking it again changes nothing. -/
theorem mask_blanks_sections (t : Text) :
    maskSliced t = .ok (mask t) ∧
    (∀ spans, SectionedBy 0 t spans ↔ spans = sectionSpans t) ∧
    Blanks (sectionSpans t) (Text.encode t) (Text.encode (mask t)) ∧
    (∀ bytes, Blanks (sectionSpans t) (Text.encode t) bytes →
      Text.decode? bytes = some (mask t)) ∧
    (∀ kind : HiddenKind, ¬ kind.opener <:+: mask t) ∧
    mask (mask t) = mask t := by
  have hopeners := fun kind => not_opener_infix_mask kind t
  refine ⟨maskSliced_eq_ok t, fun spans => sectionedBy_iff, blanks_mask t, fun bytes h => ?_,
    hopeners, mask_eq_self_of_not_infix hopeners⟩
  rw [h.eq (blanks_mask t), Text.decode?_encode]

/-- A wide character in a comment that is not closed has a space for each of its bytes. -/
example : mask "<p><!--é\n".toList = "<p>      \n".toList := by
  decide

end Masked

end MarkupRepair
