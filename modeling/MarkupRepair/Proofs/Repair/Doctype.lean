import MarkupRepair.Proofs.Markup.Doctype
import MarkupRepair.Proofs.Markup.Prolog
import MarkupRepair.Proofs.Markup.Seam
import MarkupRepair.Proofs.Repair.Sections

/-!
# Ensuring the document type

The canonical document type takes the place of the one that is found, or is put behind the XML
declaration or on top. It is found there afterwards unless the declaration ends inside of a section,
which hides it. The scan finds a document type only if its opening runs to a closing bracket without
another bracket in between, and an opening that does not stays in the document beside the new one.
-/

namespace MarkupRepair

/-- Whether a document has no document type that is found, and one put behind its XML declaration
gets into a section. -/
def hidesDoctype (t : Text) : Bool :=
  (scan t).doctype.isNone &&
    (scan t).prolog.any fun header => endsInSection (Text.takeBytes header.span.stop t)

theorem isDoctype_canonicalDoctype : IsDoctype canonicalDoctype :=
  (doctypeAt?_eq_some_iff.mp (doctypeAt?_canonicalDoctype [])).1

variable {t next a b p rest : Text} {header : Header}

theorem Fix.applyDoctype_eq_none_iff :
    applyDoctype t = none ↔ (scan t).doctypeConforms = true := by
  unfold applyDoctype
  dsimp only
  split
  next h => exact iff_of_true rfl h
  next h =>
    refine iff_of_false ?_ h
    split <;> exact nofun

/-- The canonical document type conforms when no other one stands in front of it. -/
theorem doctypeConforms_of_mask (ha : ∀ y, IsDoctype y → ¬ y <:+: a)
    (hmask : mask t = a ++ (canonicalDoctype ++ b)) : (scan t).doctypeConforms = true := by
  have hheader := doctypeHeader?_append_isDoctype ha isDoctype_canonicalDoctype 0 b
  rw [← hmask] at hheader
  have hdoctype : (scan t).doctype = _ := hheader
  rw [Scan.doctypeConforms, hdoctype]
  exact beq_self_eq_true canonicalDoctype

/-- A document type that conforms stands in the masked text. -/
theorem infix_of_doctypeConforms (h : (scan t).doctypeConforms = true) :
    canonicalDoctype <:+: mask t := by
  obtain ⟨header, hheader, htext⟩ := (Option.any_eq_true _ _).mp h
  obtain ⟨a, b, hmask, -⟩ := exists_isDoctype hheader
  rw [beq_iff_eq.mp htext] at hmask
  exact ⟨a, b, by rw [hmask, List.append_assoc]⟩

section Exchanged

/-- The masked text around the document type that is found, and with the canonical one in its
place. -/
theorem exists_mask_exchanged (h : (scan t).doctype = some header) : ∃ a x b,
    mask t = a ++ (x ++ b) ∧ IsDoctype x ∧ (∀ y, IsDoctype y → ¬ y <:+: a) ∧
      mask (Text.splice t header.span canonicalDoctype) = a ++ (canonicalDoctype ++ b) := by
  obtain ⟨a, b, hmask, hx, hnone, hspan⟩ := exists_isDoctype h
  refine ⟨a, header.text, b, hmask, hx, hnone, ?_⟩
  obtain ⟨q, hq, -⟩ := hx.exists_eq
  obtain ⟨segments, hcut, rfl, -⟩ := Segment.exists_wellCut t
  rw [hcut.mask_eq] at hmask
  rw [hq] at hmask hspan
  obtain ⟨l, r, rfl, rfl, hr⟩ := Segment.exists_plain_of_maskedAll (d := '<')
    (b := q ++ '>' :: b) (by simpa using hmask) (by decide) (by decide)
  obtain ⟨m, r, rfl, rfl, rfl⟩ := Segment.exists_plain_of_maskedAll hr (by decide) (by decide)
  have hlater : Segment.WellCut r := Segment.WellCut.of_append
    (l := l ++ Segment.plain '<' :: (m ++ [Segment.plain '>'])) (by simpa using hcut)
  have hexchanged : Segment.WellCut (l ++ (canonicalDoctype.map Segment.plain ++ r)) :=
    hcut.replace hlater hcut.readsHidden_of_append (by decide)
      (Fix.opensNothing_declaration (by decide))
  have hwritten : Text.splice (Segment.writtenAll (l ++ Segment.plain '<' ::
      (m ++ Segment.plain '>' :: r))) header.span canonicalDoctype =
        Segment.writtenAll (l ++ (canonicalDoctype.map Segment.plain ++ r)) := by
    have hsplice := Text.splice_append (Segment.writtenAll l)
      ('<' :: (Segment.writtenAll m ++ ['>'])) (Segment.writtenAll r) canonicalDoctype
    rw [hspan]
    simpa [Segment.size_maskedAll] using hsplice
  rw [hwritten, hexchanged.mask_eq]
  simp

end Exchanged

section BehindProlog

/-- A closing bracket at the end of a text stays one or is blanked. -/
theorem exists_mask_eq_of_closing (h : p.getLast? = some '>') :
    ∃ u d, mask p = u ++ [d] ∧ (d = '>' ∨ d = ' ') := by
  obtain ⟨p, rfl⟩ := List.getLast?_eq_some_iff.mp h
  have hlength : (marks (p ++ ['>'])).length = p.length + 1 := by
    rw [marks, length_marksFrom, List.length_append, List.length_singleton]
  obtain ⟨before, m, hmarks⟩ := (List.eq_nil_or_concat' (marks (p ++ ['>']))).resolve_left
    (List.ne_nil_of_length_eq_add_one hlength)
  rw [hmarks, List.length_append, List.length_singleton, Nat.add_right_cancel_iff] at hlength
  rw [mask, hmarks, List.zip_append hlength.symm, List.map_append, List.flatten_append]
  cases m with
  | plain => exact ⟨_, '>', rfl, .inl rfl⟩
  | opens => exact ⟨_, ' ', rfl, .inr rfl⟩
  | within => exact ⟨_, ' ', rfl, .inr rfl⟩

/-- An XML declaration ends with a closing bracket or at the end of its line. -/
theorem PrologSite.closing_or_feed (h : PrologSite t header rest) :
    (t.mark ++ header.text).getLast? = some '>' ∨ rest.head?.all (· == '\n') = true := by
  by_cases hclosing : '>' ∈ header.text
  · obtain ⟨w, c, hw⟩ := (List.eq_nil_or_concat' header.text).resolve_left
      (List.ne_nil_of_mem hclosing)
    have honce := h.once
    rw [hw, List.dropLast_concat] at honce
    rw [hw, List.mem_append, List.mem_singleton] at hclosing
    rw [hw, ← List.append_assoc, List.getLast?_concat, hclosing.resolve_left honce]
    exact .inl rfl
  · exact .inr (h.ends hclosing)

/-- No opener and no closer goes across the end of an XML declaration. -/
theorem PrologSite.seam (h : PrologSite t header rest) : Seam (t.mark ++ header.text) rest :=
  h.closing_or_feed.elim (seam_of_closing · rest) (seam_of_feed _)

/-- What is behind an XML declaration is read inside of a section or outside, whatever it is. -/
theorem PrologSite.exists_zone (h : PrologSite t header rest) : ∃ zone : Option HiddenKind,
    zone.isSome = endsInSection (t.mark ++ header.text) ∧
      mask t = mask (t.mark ++ header.text) ++ maskFrom zone rest ∧
      ∀ w, mask (t.mark ++ header.text ++ '\n' :: w) =
        mask (t.mark ++ header.text) ++ maskFrom zone ('\n' :: w) := by
  obtain ⟨zone, hzone, hmask⟩ := exists_zone_mask (t.mark ++ header.text)
  refine ⟨zone, hzone, ?_, fun w => hmask _ (seam_of_feed _ rfl)⟩
  rw [← hmask rest h.seam, List.append_assoc, ← h.text]

/-- The masked text from a line feed on begins with it. -/
theorem maskFrom_feed (zone : Option HiddenKind) (w : Text) :
    maskFrom zone ('\n' :: w) = '\n' :: maskFrom zone w := by
  cases zone with
  | none => exact maskFrom_append (marksFrom_none_append (w := ['\n'])
      (Segment.opensNothing_of_not_mem (by decide)) w)
  | some kind => exact maskFrom_append (marksFrom_some_append kind (w := ['\n']) (by decide)
      (by decide) w)

/-- No opening of a document type goes across the end of an XML declaration. -/
theorem PrologSite.countOpenings_mask (h : PrologSite t header rest)
    (zone : Option HiddenKind) :
    countOpenings (mask (t.mark ++ header.text) ++ maskFrom zone rest) =
      countOpenings (mask (t.mark ++ header.text)) + countOpenings (maskFrom zone rest) := by
  rcases h.closing_or_feed with hclosing | hfeed
  · obtain ⟨u, d, hmask, hd⟩ := exists_mask_eq_of_closing hclosing
    have hopens : d.toLower ∉ "!doctype".toList ∧ isWordChar d = false ∧ d ≠ '<' := by
      rcases hd with rfl | rfl <;> decide
    have hpart := countOpenings_append hopens.1 hopens.2.1 u
    have hone : ∀ z, countOpenings (d :: z) = countOpenings z := fun z =>
      countOpenings_append_of_not_mem (w := [d]) (by simpa using hopens.2.2.symm) z
    have hnil : countOpenings [] = 0 := rfl
    rw [hmask, List.append_assoc, List.singleton_append, hpart, hpart, hone, hone [], hnil,
      Nat.add_zero]
  · cases rest with
    | nil =>
        have hnil : maskFrom zone [] = [] := rfl
        rw [hnil, List.append_nil]
        rfl
    | cons c r =>
        obtain rfl : c = '\n' := by simpa using hfeed
        rw [maskFrom_feed]
        exact countOpenings_append (by decide) (by decide) _ _

/-- A document type behind an XML declaration is hidden when the declaration ends in a section. -/
theorem PrologSite.hidesDoctype_eq (h : PrologSite t header rest)
    (hdoctype : (scan t).doctype = none) (hprolog : (scan t).prolog = some header) :
    hidesDoctype t = endsInSection (t.mark ++ header.text) := by
  have hstop : header.span.stop = Text.size (t.mark ++ header.text) := by
    rw [h.span, Text.size_append]
  have hfront : Text.takeBytes header.span.stop t = t.mark ++ header.text := by
    rw [hstop, congrArg (Text.takeBytes _) h.text, ← List.append_assoc, Text.takeBytes_size_append]
  rw [hidesDoctype, hdoctype, hprolog, Option.any_some, hfront]
  rfl

/-- The byte order mark is masked as it is. -/
theorem mask_mark_append (t z : Text) : mask (t.mark ++ z) = t.mark ++ maskFrom none z := by
  have hopens : Segment.OpensNothing t.mark :=
    Segment.opensNothing_of_not_mem t.bracket_not_mem_mark
  have hmask := maskFrom_append (marksFrom_none_append hopens z)
  have hplain : t.mark.flatMap (maskChar · .plain) = t.mark := List.flatMap_singleton' _
  rwa [hplain] at hmask

/-- Outside of sections the canonical document type is masked as it is. -/
theorem maskFrom_none_doctype (z : Text) :
    maskFrom none (canonicalDoctype ++ z) = canonicalDoctype ++ maskFrom none z := by
  have hopens : Segment.OpensNothing canonicalDoctype := Fix.opensNothing_declaration (by decide)
  exact maskFrom_append (marksFrom_none_append hopens z)

/-- Inside of a section the canonical document type is blanked. -/
theorem exists_maskFrom_some_doctype (kind : HiddenKind) : ∃ w : Text, '<' ∉ w ∧
    ∀ z, maskFrom (some kind) (canonicalDoctype ++ z) = w ++ maskFrom (some kind) z := by
  refine ⟨canonicalDoctype.flatMap (maskChar · .within), by decide, fun z => ?_⟩
  exact maskFrom_append (marksFrom_some_append kind (by decide) (by decide) z)

/-- Of what begins with an opening bracket nothing is in text without one. -/
theorem infix_of_append_of_not_mem {x w z : Text} (hx : x.head? = some '<') (hw : '<' ∉ w)
    (h : x <:+: w ++ z) : x <:+: z := by
  obtain ⟨x, rfl⟩ := List.head?_eq_some_iff.mp hx
  induction w with
  | nil => exact h
  | cons c w ih =>
      rw [List.mem_cons, not_or] at hw
      refine ih hw.2 ((List.infix_cons_iff.mp h).resolve_left fun hprefix => ?_)
      exact hw.1 (List.cons_prefix_cons.mp hprefix).1

end BehindProlog

namespace Fix

/-- Whether a document is another one with the canonical document type in place of its own, behind
its XML declaration or on a line of its own behind the byte order mark. -/
inductive PutsDoctype (t next : Text) : Prop where
  /-- The document type is exchanged. -/
  | exchanged (header : Header) (doctype : (scan t).doctype = some header)
      (after : next = Text.splice t header.span canonicalDoctype)
  /-- The document type is put behind the XML declaration. -/
  | behindProlog (header : Header) (rest : Text) (doctype : (scan t).doctype = none)
      (prolog : (scan t).prolog = some header) (site : PrologSite t header rest)
      (after : next = t.mark ++ header.text ++ '\n' :: (canonicalDoctype ++ rest))
  /-- The document type is put on top. -/
  | onTop (rest : Text) (doctype : (scan t).doctype = none) (prolog : (scan t).prolog = none)
      (before : t = t.mark ++ rest) (after : next = t.mark ++ (canonicalDoctype ++ '\n' :: rest))

/-- What ensuring the document type changes. -/
theorem putsDoctype_of_applyDoctype (h : applyDoctype t = some next) : PutsDoctype t next := by
  unfold applyDoctype at h
  dsimp only at h
  split at h
  next => cases h
  next =>
    split at h
    next header hdoctype => exact .exchanged header hdoctype (Option.some.inj h).symm
    next header hdoctype hprolog =>
      obtain ⟨rest, hsite⟩ := exists_prologSite hprolog
      refine .behindProlog header rest hdoctype hprolog hsite ?_
      have hsplice := Text.splice_insert (t.mark ++ header.text) rest ('\n' :: canonicalDoctype)
      have hstop : header.span.stop = Text.size (t.mark ++ header.text) := by
        rw [hsite.span, Text.size_append]
      rw [List.append_assoc, ← hsite.text, ← hstop, Option.some.inj h] at hsplice
      rw [hsplice]
      simp
    next hdoctype hprolog =>
      obtain ⟨rest, ht, hmark⟩ := t.exists_mark_append
      refine .onTop rest hdoctype hprolog ht ?_
      have hsplice := Text.splice_insert t.mark rest (canonicalDoctype ++ ['\n'])
      rw [← ht, ← hmark, Option.some.inj h] at hsplice
      rw [hsplice]
      simp

/-- Afterwards the document type conforms unless a section hides it. -/
theorem PutsDoctype.doctypeConforms_eq (h : PutsDoctype t next) :
    (scan next).doctypeConforms = !hidesDoctype t := by
  cases h with
  | exchanged header hdoctype after =>
      obtain ⟨a, x, b, -, -, hnone, hmask⟩ := exists_mask_exchanged hdoctype
      rw [← after] at hmask
      rw [doctypeConforms_of_mask hnone hmask, hidesDoctype, hdoctype]
      rfl
  | onTop rest hdoctype hprolog before after =>
      have hnone : ∀ y, IsDoctype y → ¬ y <:+: t.mark := fun y hy hpart => by
        obtain ⟨q, rfl, -⟩ := hy.exists_eq
        exact t.bracket_not_mem_mark (hpart.subset List.mem_cons_self)
      have hnext := mask_mark_append t (canonicalDoctype ++ '\n' :: rest)
      rw [← after, maskFrom_none_doctype] at hnext
      rw [doctypeConforms_of_mask hnone hnext, hidesDoctype, hdoctype, hprolog]
      rfl
  | behindProlog header rest hdoctype hprolog hsite after =>
      obtain ⟨zone, hzone, hmask, hlater⟩ := hsite.exists_zone
      have hnone : ∀ y, IsDoctype y → ¬ y <:+: mask t := doctypeHeader?_eq_none_iff.mp hdoctype
      have hnext := hlater (canonicalDoctype ++ rest)
      rw [← after, maskFrom_feed] at hnext
      rw [hsite.hidesDoctype_eq hdoctype hprolog, ← hzone]
      cases zone with
      | none =>
          refine doctypeConforms_of_mask (a := mask (t.mark ++ header.text) ++ ['\n'])
            (b := maskFrom none rest) (fun y hy hpart => ?_) ?_
          · rcases List.infix_concat_iff.mp hpart with ⟨v, hv⟩ | hfront
            · obtain ⟨q, rfl, -⟩ := hy.exists_eq
              have hlast := congrArg List.getLast? hv
              rw [← List.cons_append, ← List.append_assoc, List.getLast?_concat,
                List.getLast?_concat] at hlast
              exact absurd hlast (by decide)
            · refine hnone y hy ?_
              rw [hmask]
              exact hfront.trans (List.prefix_append _ _).isInfix
          · rw [hnext, maskFrom_none_doctype]
            simp
      | some kind =>
          obtain ⟨w, hw, hblank⟩ := exists_maskFrom_some_doctype kind
          rw [hblank] at hnext
          refine Bool.eq_false_iff.mpr fun hconforms => ?_
          have hpart := infix_of_doctypeConforms hconforms
          rw [hnext] at hpart
          refine hnone _ isDoctype_canonicalDoctype ?_
          rw [hmask]
          rcases infix_of_append_cons (by decide) hpart with hfront | hbehind
          · exact hfront.trans (List.prefix_append _ _).isInfix
          · exact (infix_of_append_of_not_mem rfl hw hbehind).trans
              (List.suffix_append _ _).isInfix

/-- There is another opening afterwards when no document type was found and none is hidden. -/
theorem PutsDoctype.doctypeOpenings_eq (h : PutsDoctype t next) :
    next.doctypeOpenings =
      t.doctypeOpenings + if (scan t).doctype.isNone && !hidesDoctype t then 1 else 0 := by
  have hbracket : '<'.toLower ∉ "!doctype".toList ∧ isWordChar '<' = false := by
    decide
  have hfeed : ∀ z, countOpenings ('\n' :: z) = countOpenings z :=
    countOpenings_append_of_not_mem (w := ['\n']) (by decide)
  cases h with
  | exchanged header hdoctype after =>
      obtain ⟨a, x, b, hmask, hx, -, hnext⟩ := exists_mask_exchanged hdoctype
      have hcount : ∀ y, IsDoctype y → countOpenings (a ++ (y ++ b)) =
          countOpenings a + (countOpenings b + 1) := by
        intro y hy
        rw [← hy.countOpenings_append b]
        obtain ⟨q, rfl, -⟩ := hy.exists_eq
        exact countOpenings_append hbracket.1 hbracket.2 a _
      rw [Text.doctypeOpenings, Text.doctypeOpenings, after, hnext, hmask, hcount x hx,
        hcount _ isDoctype_canonicalDoctype, hdoctype]
      rfl
  | onTop rest hdoctype hprolog before after =>
      have hmask := mask_mark_append t rest
      rw [← before] at hmask
      rw [Text.doctypeOpenings, Text.doctypeOpenings, after, mask_mark_append, hmask,
        maskFrom_none_doctype, maskFrom_feed,
        countOpenings_append_of_not_mem t.bracket_not_mem_mark,
        countOpenings_append_of_not_mem t.bracket_not_mem_mark,
        isDoctype_canonicalDoctype.countOpenings_append, hfeed, hidesDoctype, hdoctype, hprolog]
      rfl
  | behindProlog header rest hdoctype hprolog hsite after =>
      obtain ⟨zone, hzone, hmask, hlater⟩ := hsite.exists_zone
      have hnext := hlater (canonicalDoctype ++ rest)
      rw [← after, maskFrom_feed] at hnext
      rw [Text.doctypeOpenings, Text.doctypeOpenings, hnext, hmask,
        countOpenings_append (by decide) (by decide), hfeed, hsite.countOpenings_mask,
        hsite.hidesDoctype_eq hdoctype hprolog, ← hzone, hdoctype]
      cases zone with
      | none => rw [maskFrom_none_doctype, isDoctype_canonicalDoctype.countOpenings_append]; rfl
      | some kind =>
          obtain ⟨w, hw, hblank⟩ := exists_maskFrom_some_doctype kind
          rw [hblank, countOpenings_append_of_not_mem hw]
          rfl

end Fix

/-- Ensuring the document type of a document leaves one that conforms, and has nothing left to do,
exactly when no section hides what is put in. Another opening is put into the document when none of
a whole document type was found. So openings are duplicated exactly when the document has some, and
none of them is found and nothing is hidden. -/
theorem ensureDoctype_conforms_iff_not_hidden (t next : Text)
    (happly : Fix.ensureDoctype.apply t = some next) :
    ((scan next).doctypeConforms = true ↔ hidesDoctype t = false) ∧
    (Fix.ensureDoctype.apply next = none ↔ hidesDoctype t = false) ∧
    next.doctypeOpenings =
      t.doctypeOpenings + (if (scan t).doctype.isNone && !hidesDoctype t then 1 else 0) ∧
    (next.doctypeOpenings ≤ max 1 t.doctypeOpenings ↔
      (scan t).doctype ≠ none ∨ hidesDoctype t = true ∨ t.doctypeOpenings = 0) := by
  have hputs := Fix.putsDoctype_of_applyDoctype happly
  have hconforms : (scan next).doctypeConforms = true ↔ hidesDoctype t = false := by
    rw [hputs.doctypeConforms_eq, Bool.not_eq_true']
  refine ⟨hconforms, Fix.applyDoctype_eq_none_iff.trans hconforms, hputs.doctypeOpenings_eq, ?_⟩
  rw [hputs.doctypeOpenings_eq]
  cases (scan t).doctype with
  | some header => simp
  | none =>
      cases hidesDoctype t with
      | true => simp
      | false => simp

/-- A document with nothing but a root. -/
theorem ensureDoctype_conforms_iff_not_hidden_root :
    Fix.ensureDoctype.apply "<html/>".toList = some "<!DOCTYPE html>\n<html/>".toList ∧
      (scan "<!DOCTYPE html>\n<html/>".toList).doctypeConforms = true ∧
      Text.doctypeOpenings "<!DOCTYPE html>\n<html/>".toList = 1 := by
  have happly : Fix.ensureDoctype.apply "<html/>".toList =
      some "<!DOCTYPE html>\n<html/>".toList := by
    decide +kernel
  obtain ⟨hconforms, -, hopenings, -⟩ := ensureDoctype_conforms_iff_not_hidden _ _ happly
  exact ⟨happly, hconforms.mpr (by decide +kernel), hopenings.trans (by decide +kernel)⟩

/-- A comment begins in this XML declaration, and the document type is put into it. -/
example : hidesDoctype "<?xml <!-- > --><html/>".toList = true := by decide +kernel

/-- A document type with an internal subset. -/
def subsetDoctype : Text := "<!DOCTYPE html [<!ENTITY x \"y\">]>\n<html/>".toList

/-- No document type is found there, so a second one is put on top of it. -/
theorem exists_duplicated_doctype : ¬ ∀ t next, Fix.ensureDoctype.apply t = some next →
    (scan next).doctypeConforms = true ∧ Fix.ensureDoctype.apply next = none ∧
      next.doctypeOpenings ≤ max 1 t.doctypeOpenings := by
  intro h
  have happly : Fix.ensureDoctype.apply subsetDoctype =
      some (canonicalDoctype ++ '\n' :: subsetDoctype) := by
    decide +kernel
  obtain ⟨-, -, hopenings⟩ := h _ _ happly
  revert hopenings
  decide +kernel

end MarkupRepair
