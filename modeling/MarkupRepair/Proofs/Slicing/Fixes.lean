import MarkupRepair.Proofs.Slicing.Edits

/-!
# Slicing in the fixes

The declarations and the root element are found in the masked text, where a section takes as many
bytes as in the text but not as many characters. What they exchange begins and ends with characters
that no section leaves in the masked text, so it stands between two places of the text. A closing
tag goes in front of another one. So no fix slices anything that fails, whatever text it is applied
to and whatever text it was meant for.
-/

namespace MarkupRepair

open Text (size)

section Masked

variable {t a b w : Text} {c d : Char}

/-- A character of the masked text that no section leaves there stands at the same offset in the
text. -/
theorem exists_of_mask (h : mask t = a ++ c :: b) (hblank : c ≠ ' ') (hfeed : c ≠ '\n') :
    ∃ u v, t = u ++ c :: v ∧ size u = size a := by
  obtain ⟨segments, hcut, rfl, -⟩ := Segment.exists_wellCut t
  rw [hcut.mask_eq] at h
  obtain ⟨l, r, rfl, rfl, -⟩ := Segment.exists_plain_of_maskedAll h hblank hfeed
  exact ⟨Segment.writtenAll l, Segment.writtenAll r, Segment.writtenAll_append _ _,
    (Segment.size_maskedAll l).symm⟩

/-- A stretch of the masked text between two characters that no section leaves there stands between
two places of the text. -/
theorem fits_of_mask (h : mask t = a ++ (c :: (w ++ [d]) ++ b)) (hc : c ≠ ' ' ∧ c ≠ '\n')
    (hd : d ≠ ' ' ∧ d ≠ '\n') : Text.Fits ⟨size a, size a + size (c :: (w ++ [d]))⟩ t := by
  have hlast : mask t = a ++ c :: w ++ d :: b := by
    rw [h]
    simp
  obtain ⟨u, v, hfirst, hu⟩ := exists_of_mask h hc.1 hc.2
  obtain ⟨u', v', hsecond, hu'⟩ := exists_of_mask hlast hd.1 hd.2
  constructor
  · rw [← hu, hfirst]
    exact Text.isBoundary_size_append _ _
  · have hboundary := Text.isBoundary_size_append (u' ++ [d]) v'
    rw [List.append_assoc, List.singleton_append, ← hsecond, Text.size_append, hu'] at hboundary
    simpa [Nat.add_assoc] using hboundary

end Masked

/-- A value between quotes begins and ends with its quote. -/
theorem ValueText.exists_raw_eq {t : Text}
    (h : (read t).quoting = .double ∨ (read t).quoting = .single) :
    ∃ q v, (read t).raw = q :: (v ++ [q]) ∧ (q = '"' ∨ q = '\'') := by
  unfold read at h ⊢
  dsimp only at h ⊢
  generalize t.takeWhile isWhiteSpace = gap at h ⊢
  cases hwritten : trimStart t with
  | nil => simp [hwritten] at h
  | cons q inner =>
      rw [hwritten] at h
      dsimp only at h ⊢
      split at h
      next hquote =>
        rw [if_pos hquote]
        split at h
        next => simp at h
        next hshort =>
          rw [if_neg hshort]
          split at h
          next hclosed =>
            rw [if_pos hclosed]
            exact ⟨q, inner.takeWhile (· != q), rfl, by simpa using hquote⟩
          next => simp at h
      next => simp at h

namespace Fix

/-- Ensure a conforming XML declaration, by slices. -/
def applyPrologSliced (t : Text) : Sliced (Option Text) := do
  let s ← scanSliced t
  if s.prologConforms then return none
  else
    match s.prolog with
    | some header => return some (← t.spliceCut header.span canonicalProlog)
    | none =>
        return some (← t.spliceCut ⟨markSize t, markSize t⟩ (canonicalProlog ++ ['\n']))

/-- Ensure the canonical document type, by slices. -/
def applyDoctypeSliced (t : Text) : Sliced (Option Text) := do
  let s ← scanSliced t
  if s.doctypeConforms then return none
  else
    match s.doctype, s.prolog with
    | some header, _ => return some (← t.spliceCut header.span canonicalDoctype)
    | none, some header =>
        return some (← t.spliceCut ⟨header.span.stop, header.span.stop⟩ ('\n' :: canonicalDoctype))
    | none, none =>
        return some (← t.spliceCut ⟨markSize t, markSize t⟩ (canonicalDoctype ++ ['\n']))

/-- Ensure the XHTML namespace on the root element, by slices. The root is read again from the
text. -/
def applyNamespaceSliced (t : Text) : Sliced (Option Text) := do
  let s ← scanSliced t
  match s.root? with
  | none => return none
  | some root =>
      if s.rootHasNamespace then return none
      else
        match root.attributeNamed? "xmlns".toList with
        | some a =>
            if a.quoting = .double || a.quoting = .single then
              return some (← t.spliceCut a.span quotedNamespace)
            else return none
        | none =>
            match t.slice? root.span with
            | none => return none
            | some written =>
                match TagText.atStart? written with
                | none => return none
                | some tag =>
                    let (name, _) ← tag.sliced written 0
                    let place := root.span.start + 1 + size name
                    return some (← t.spliceCut ⟨place, place⟩
                      (" xmlns=".toList ++ quotedNamespace))

/-- Insert a missing closing tag, by slices. -/
def applyCloseSliced (tag t : Text) : Sliced Text :=
  match closeAnchor? t tag with
  | some offset => t.spliceCut ⟨offset, offset⟩ (closingTag tag ++ ['\n'])
  | none => .ok (trimEnd t ++ ['\n'] ++ closingTag tag ++ ['\n'])

/-- Apply a fix to a document, by slices. -/
def applySliced (fix : Fix) (t : Text) : Sliced (Option Text) :=
  match fix with
  | .ensureProlog => applyPrologSliced t
  | .ensureDoctype => applyDoctypeSliced t
  | .ensureNamespace => applyNamespaceSliced t
  | .closeElement tag => do return some (← applyCloseSliced tag t)
  | .quoteAttribute p _ _ | .collapseQuotes p _ _ | .terminateEntity p _
  | .expandSelfClosing p _ => fix.applyInLineSliced p t

variable {t : Text}

/-- The end of the byte order mark, or the start of a text without one, is a place of the text. -/
theorem fits_markSize (t : Text) : Text.Fits ⟨markSize t, markSize t⟩ t := by
  obtain ⟨front, rest, rfl, hsize, -⟩ := exists_markSize_eq t
  rw [hsize]
  exact Text.fits_place front rest

/-- The XML declaration stands between two places of the text. -/
theorem fits_prolog {header : Header} (h : (scan t).prolog = some header) :
    Text.Fits header.span t := by
  obtain ⟨front, q, z, b, rfl, -, -, -, -, hspan⟩ := exists_of_prologHeader? h
  rw [hspan]
  exact Text.fits_append front header.text b

/-- The document type stands between two places of the text. -/
theorem fits_doctype {header : Header} (h : (scan t).doctype = some header) :
    Text.Fits header.span t := by
  obtain ⟨a, q, b, hmask, htext, -, hspan⟩ := exists_of_doctypeHeader? h
  rw [hspan, htext, Nat.zero_add]
  exact fits_of_mask (w := q) (b := b) (by rw [hmask]; simp) (by decide) (by decide)

/-- A value between quotes stands between two places of the text. -/
theorem fits_value {tag : TagToken} {a : AttributeToken} (htag : tag ∈ (scan t).tags)
    (ha : a ∈ tag.attributes) (hquoting : a.quoting = .double ∨ a.quoting = .single) :
    Text.Fits a.span t := by
  obtain ⟨o, written, hfound⟩ := exists_foundAt htag ha
  obtain ⟨front, q, later, hmask, rfl, hread⟩ := hfound.exists_mask
  obtain rfl := hfound.token_eq
  obtain ⟨rest, rfl, hvalue, -⟩ := AttributeText.exists_toText_append hread
  have hquoted : written.written.quoting = .double ∨ written.written.quoting = .single := hquoting
  rw [hvalue] at hquoted
  obtain ⟨quote, v, hraw, hquote⟩ := ValueText.exists_raw_eq hquoted
  rw [← hvalue] at hraw
  have hplain : quote ≠ ' ' ∧ quote ≠ '\n' := by
    rcases hquote with rfl | rfl <;> decide
  have hparts : mask t = front ++ written.beforeValue ++
      (quote :: (v ++ [quote]) ++ (rest ++ later)) := by
    rw [hmask, ← hraw]
    simp [AttributeText.toText]
  have hfits := fits_of_mask hparts hplain hplain
  rw [← hraw] at hfits
  simpa [AttributeToken.ofText] using hfits

/-- The end of the name of the root, as it is read again from the text, is a place of the text. -/
theorem fits_root {root : TagToken} {written : Text} {tag : TagText}
    (hroot : (scan t).root? = some root) (hslice : t.slice? root.span = some written)
    (htag : TagText.atStart? written = some tag) :
    Text.Fits ⟨root.span.start + 1 + size tag.name, root.span.start + 1 + size tag.name⟩ t := by
  obtain ⟨front, after, text, hmask, hread, hleading, rfl⟩ := exists_of_root? hroot
  obtain ⟨-, c, s, hname, halpha⟩ := TagText.name_of_read? hread
  obtain ⟨later, hlater⟩ := TagText.exists_eq_of_read? hread
  obtain ⟨x, y, ht, hspan⟩ := Text.slice?_eq_some_iff.mp hslice
  obtain ⟨rest, rfl⟩ := TagText.exists_toText_append htag
  have hone : '<'.utf8Size = 1 := rfl
  have hstart : size front = size x := (Span.mk.inj hspan).1
  obtain ⟨u, v, ht', hu⟩ : ∃ u v, t = u ++ c :: v ∧ size u = size (front ++ ['<']) := by
    refine exists_of_mask (b := s ++ text.body ++
      (if text.trailingSlash then ['/'] else []) ++ '>' :: later) ?_ ?_ ?_
    · rw [hmask, hlater, TagText.toText, hleading, hname]
      simp
    · exact ne_of_class halpha (by decide)
    · exact ne_of_class halpha (by decide)
  cases hagain : tag.leadingSlash with
  | true =>
      exfalso
      have hparts : x ++ ['<'] ++ '/' :: (tag.name ++ (tag.body ++
          ((if tag.trailingSlash then ['/'] else []) ++ '>' :: (rest ++ y)))) = u ++ c :: v := by
        rw [← ht', ht, TagText.toText, hagain]
        simp
      obtain ⟨-, hcons⟩ := Text.append_inj_of_size hparts (by simp [hu, hstart])
      exact ne_of_class halpha (by decide) (List.cons.inj hcons).1.symm
  | false =>
      have hparts : t = x ++ '<' :: tag.name ++ (tag.body ++
          ((if tag.trailingSlash then ['/'] else []) ++ '>' :: (rest ++ y))) := by
        rw [ht, TagText.toText, hagain]
        simp
      have hfits := Text.fits_place (x ++ '<' :: tag.name) (tag.body ++
        ((if tag.trailingSlash then ['/'] else []) ++ '>' :: (rest ++ y)))
      rw [← hparts] at hfits
      simpa [TagToken.ofText, hstart, hone, Nat.add_assoc] using hfits

/-- Ensuring the XML declaration slices nothing that fails. -/
theorem applyPrologSliced_eq_ok (t : Text) : applyPrologSliced t = .ok (applyProlog t) := by
  rw [applyPrologSliced, scanSliced_eq_ok, Sliced.ok_bind, applyProlog]
  split
  next => rfl
  next =>
    cases hprolog : (scan t).prolog with
    | none => exact (fits_markSize t).exchange_eq_ok _
    | some header => exact (fits_prolog hprolog).exchange_eq_ok _

/-- Ensuring the document type slices nothing that fails. -/
theorem applyDoctypeSliced_eq_ok (t : Text) : applyDoctypeSliced t = .ok (applyDoctype t) := by
  rw [applyDoctypeSliced, scanSliced_eq_ok, Sliced.ok_bind, applyDoctype]
  split
  next => rfl
  next =>
    cases hdoctype : (scan t).doctype with
    | some header => exact (fits_doctype hdoctype).exchange_eq_ok _
    | none =>
        cases hprolog : (scan t).prolog with
        | some header => exact (fits_prolog hprolog).stop.exchange_eq_ok _
        | none => exact (fits_markSize t).exchange_eq_ok _

/-- Ensuring the namespace slices nothing that fails. -/
theorem applyNamespaceSliced_eq_ok (t : Text) :
    applyNamespaceSliced t = .ok (applyNamespace t) := by
  rw [applyNamespaceSliced, scanSliced_eq_ok, Sliced.ok_bind, applyNamespace]
  dsimp only
  cases hroot : (scan t).root? with
  | none => rfl
  | some root =>
      dsimp only
      split
      next => rfl
      next =>
        cases hnamed : root.attributeNamed? "xmlns".toList with
        | some a =>
            dsimp only
            split
            next hquoting =>
              have hfits := fits_value (List.mem_of_find?_eq_some hroot)
                (List.mem_of_find?_eq_some hnamed) (by simpa using hquoting)
              exact hfits.exchange_eq_ok _
            next => rfl
        | none =>
            dsimp only
            cases hslice : t.slice? root.span with
            | none => rfl
            | some written =>
                dsimp only [Option.bind_some]
                cases htag : TagText.atStart? written with
                | none => rfl
                | some tag =>
                    dsimp only
                    rw [TagText.sliced_of_atStart? htag, Sliced.ok_bind]
                    exact (fits_root hroot hslice htag).exchange_eq_ok _

/-- Inserting a closing tag slices nothing that fails. -/
theorem applyCloseSliced_eq_ok (tag t : Text) :
    applyCloseSliced tag t = .ok (applyClose tag t) := by
  unfold applyCloseSliced applyClose
  cases hanchor : closeAnchor? t tag with
  | none => rfl
  | some offset =>
      obtain ⟨name, -, a, b, rfl, rfl⟩ := exists_of_closeAnchor? hanchor
      exact (Text.fits_place a _).spliceCut_eq_ok _

/-- No fix slices anything that fails, and what it makes is what it makes of the text. -/
theorem applySliced_eq_ok (fix : Fix) (t : Text) : fix.applySliced t = .ok (fix.apply t) := by
  cases fix with
  | ensureProlog => exact applyPrologSliced_eq_ok t
  | ensureDoctype => exact applyDoctypeSliced_eq_ok t
  | ensureNamespace => exact applyNamespaceSliced_eq_ok t
  | closeElement tag =>
      rw [applySliced, applyCloseSliced_eq_ok]
      rfl
  | quoteAttribute p name value => exact applyInLineSliced_eq_ok _ p t
  | collapseQuotes p name quotes => exact applyInLineSliced_eq_ok _ p t
  | terminateEntity p entity => exact applyInLineSliced_eq_ok _ p t
  | expandSelfClosing p tag => exact applyInLineSliced_eq_ok _ p t

end Fix

end MarkupRepair
