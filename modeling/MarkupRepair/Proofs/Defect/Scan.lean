import MarkupRepair.Proofs.Markup.Scanning

/-!
# The scan of a document in pieces

A document consists of its header lines and of pieces. Its scan lists the tags and the open
references of the pieces, each at the place where the piece stands, and finds the declarations
exactly when their lines are there.
-/

namespace MarkupRepair

namespace Piece

/-- The tags of pieces that begin at an offset. -/
def tagsFrom (offset : Nat) : List Piece → List (Nat × TagText)
  | [] => []
  | p :: rest =>
      (p.tag?.map fun t => (offset, t)).toList ++ tagsFrom (offset + Text.size p.written) rest

/-- The references without a semicolon of pieces that begin at an offset. -/
def openReferencesFrom (offset : Nat) : List Piece → List (Nat × EntityText)
  | [] => []
  | p :: rest =>
      (p.openReference?.map fun e => (offset, e)).toList ++
        openReferencesFrom (offset + Text.size p.written) rest

variable {pieces : List Piece}

theorem all_writtenAll (h : ∀ p ∈ pieces, p.Valid) (offset : Nat) :
    TagText.all offset (writtenAll pieces) = tagsFrom offset pieces := by
  induction pieces generalizing offset with
  | nil => rfl
  | cons p rest ih =>
      rw [List.forall_mem_cons] at h
      rw [writtenAll_cons, h.1.all_written_append, ih h.2, tagsFrom]

theorem openFrom_writtenAll (h : ∀ p ∈ pieces, p.Valid) (offset : Nat) :
    EntityText.openFrom offset (writtenAll pieces) = openReferencesFrom offset pieces := by
  induction pieces generalizing offset with
  | nil => rfl
  | cons p rest ih =>
      rw [List.forall_mem_cons] at h
      rw [writtenAll_cons, h.1.openFrom_written_append, ih h.2, openReferencesFrom]

theorem freeOfDeclarations_writtenAll (h : ∀ p ∈ pieces, p.Valid) :
    FreeOfDeclarations (writtenAll pieces) := by
  induction pieces with
  | nil => trivial
  | cons p rest ih =>
      rw [List.forall_mem_cons] at h
      rw [writtenAll_cons]
      exact h.1.freeOfDeclarations.append (ih h.2)

end Piece

section HeaderLines

/-- The line of the XML declaration. -/
def prologLine : Text := canonicalProlog ++ ['\n']

/-- The line of the document type. -/
def doctypeLine : Text := canonicalDoctype ++ ['\n']

theorem headerLines_eq (prolog doctype : Bool) :
    headerLines prolog doctype =
      (if prolog then prologLine else []) ++ if doctype then doctypeLine else [] := rfl

private theorem exists_prologLine :
    ∃ w, prologLine = '<' :: '?' :: w ∧ '<' ∉ '?' :: w ∧ '&' ∉ prologLine :=
  ⟨prologLine.drop 2, by decide, by decide, by decide⟩

private theorem exists_doctypeLine :
    ∃ w, doctypeLine = '<' :: '!' :: 'D' :: w ∧ '<' ∉ '!' :: 'D' :: w ∧ '&' ∉ doctypeLine :=
  ⟨doctypeLine.drop 3, by decide, by decide, by decide⟩

/-- Header lines have no tags. -/
theorem all_headerLines (prolog doctype : Bool) (rest : Text) :
    TagText.all 0 (headerLines prolog doctype ++ rest) =
      TagText.all (Text.size (headerLines prolog doctype)) rest := by
  have hline : ∀ (d : Char) (w : Text), d.isAlpha = false → d ≠ '/' → '<' ∉ d :: w →
      ∀ offset rest, TagText.all offset ('<' :: d :: w ++ rest) =
        TagText.all (offset + Text.size ('<' :: d :: w)) rest := by
    intro d w hd hslash h offset rest
    have hnone : TagText.atStart? ('<' :: (d :: w ++ rest)) = none := by
      rw [TagText.atStart?, TagText.read?]
      simp [Text.startsWith, Text.afterPrefix?, Ne.symm hslash, hd]
    rw [List.cons_append, TagText.all, hnone]
    dsimp only
    rw [TagText.all_append_of_not_mem h]
    simp only [Text.size_cons, Nat.add_assoc]
  have hprolog : ∀ offset rest, TagText.all offset (prologLine ++ rest) =
      TagText.all (offset + Text.size prologLine) rest := by
    obtain ⟨w, hw, hmem, _⟩ := exists_prologLine
    rw [hw]
    exact hline '?' w (by decide) (by decide) hmem
  have hdoctype : ∀ offset rest, TagText.all offset (doctypeLine ++ rest) =
      TagText.all (offset + Text.size doctypeLine) rest := by
    obtain ⟨w, hw, hmem, _⟩ := exists_doctypeLine
    rw [hw]
    exact hline '!' ('D' :: w) (by decide) (by decide) hmem
  rw [headerLines_eq]
  cases prolog <;> cases doctype <;>
    simp [hprolog, hdoctype]

/-- Header lines have no references. -/
theorem openFrom_headerLines (prolog doctype : Bool) (rest : Text) :
    EntityText.openFrom 0 (headerLines prolog doctype ++ rest) =
      EntityText.openFrom (Text.size (headerLines prolog doctype)) rest := by
  obtain ⟨_, _, _, hprolog⟩ := exists_prologLine
  obtain ⟨_, _, _, hdoctype⟩ := exists_doctypeLine
  have hplain : '&' ∉ headerLines prolog doctype := by
    rw [headerLines_eq]
    cases prolog <;> cases doctype <;> simp [hprolog, hdoctype]
  rw [EntityText.openFrom_append_of_terminated (terminated_of_not_mem hplain), Nat.zero_add]

theorem freeOfDeclarations_prologLine : FreeOfDeclarations prologLine := by
  obtain ⟨w, hw, hmem, _⟩ := exists_prologLine
  rw [hw]
  exact ⟨fun _ => ⟨'?', w, rfl, by decide⟩, freeOfDeclarations_of_not_mem hmem⟩

/-- Header lines hide nothing. -/
theorem marksFrom_headerLines (prolog doctype : Bool) (rest : Text) :
    marksFrom none 0 (headerLines prolog doctype ++ rest) =
      List.replicate (headerLines prolog doctype).length .plain ++ marksFrom none 0 rest := by
  have hprolog : ∀ rest, marksFrom none 0 (prologLine ++ rest) =
      List.replicate prologLine.length .plain ++ marksFrom none 0 rest :=
    marksFrom_append freeOfDeclarations_prologLine
  have hdoctype : ∀ rest, marksFrom none 0 (doctypeLine ++ rest) =
      List.replicate doctypeLine.length .plain ++ marksFrom none 0 rest := by
    obtain ⟨w, hw, hmem, _⟩ := exists_doctypeLine
    intro rest
    have hnone : HiddenKind.at? ('<' :: ('!' :: 'D' :: w ++ rest)) = none := by
      simp [HiddenKind.at?, HiddenKind.opener, Text.startsWith, Text.afterPrefix?]
    rw [hw, List.cons_append, marksFrom, hnone]
    dsimp only
    rw [marksFrom_append (freeOfDeclarations_of_not_mem hmem)]
    rfl
  rw [headerLines_eq]
  cases prolog <;> cases doctype <;>
    simp only [hprolog, hdoctype, if_true, Bool.false_eq_true, if_false, List.nil_append,
      List.append_nil, List.length_nil, List.replicate_zero, List.append_assoc,
      List.length_append, ← List.replicate_append_replicate]

/-- The document type is found when its line is there. -/
theorem doctypeHeader?_headerLines (prolog doctype : Bool) {body : Text}
    (hbody : FreeOfDeclarations body) :
    doctypeHeader? 0 (headerLines prolog doctype ++ body) =
      if doctype then
        some ⟨canonicalDoctype, Text.size (headerLines prolog false),
          Text.size (headerLines prolog false) + Text.size canonicalDoctype⟩
      else none := by
  have hprolog : FreeOfDeclarations (headerLines prolog false) := by
    cases prolog
    · trivial
    · rw [headerLines_eq]
      exact freeOfDeclarations_prologLine.append (b := []) trivial
  have hsplit : headerLines prolog doctype ++ body =
      headerLines prolog false ++ ((if doctype then doctypeLine else []) ++ body) := by
    simp [headerLines_eq]
  rw [hsplit, doctypeHeader?_append hprolog, Nat.zero_add]
  cases doctype with
  | false =>
      have hnone := doctypeHeader?_append hbody (Text.size (headerLines prolog false)) []
      rw [List.append_nil] at hnone
      exact hnone
  | true =>
      have hcons : ∃ r, canonicalDoctype = '<' :: r := ⟨canonicalDoctype.drop 1, by decide⟩
      obtain ⟨r, hr⟩ := hcons
      have hat := doctypeAt?_canonicalDoctype ('\n' :: body)
      have hline : doctypeLine ++ body = '<' :: (r ++ '\n' :: body) := by
        simp [doctypeLine, hr]
      rw [hr, List.cons_append] at hat
      rw [if_pos rfl, hline, doctypeHeader?, hat, if_pos rfl, hr]

private theorem markSize_cons_bracket (r : Text) : markSize ('<' :: r) = 0 := by
  have hmark : ('<' == byteOrderMark) = false := by
    decide
  simp [markSize, hasByteOrderMark, hmark]

private theorem prologHeader?_eq_none {d : Char} (h : d ≠ '?') (r : Text) :
    prologHeader? ('<' :: d :: r) = none := by
  have hopening : "<?xml".toList = '<' :: '?' :: "xml".toList := by
    decide
  have hdrop : Text.dropBytes 0 ('<' :: d :: r) = '<' :: d :: r := rfl
  simp [prologHeader?, markSize_cons_bracket, hdrop, hopening, Text.afterPrefix?, Ne.symm h]

/-- The XML declaration is found when its line is there. -/
theorem prologHeader?_headerLines (prolog doctype : Bool) {d : Char} (hd : d ≠ '?')
    (body : Text) :
    prologHeader? (headerLines prolog doctype ++ '<' :: d :: body) =
      if prolog then some ⟨canonicalProlog, 0, Text.size canonicalProlog⟩ else none := by
  cases prolog with
  | false =>
      cases doctype with
      | false => exact prologHeader?_eq_none hd body
      | true =>
          obtain ⟨w, hw, _⟩ := exists_doctypeLine
          rw [headerLines_eq, if_neg Bool.false_ne_true, if_pos rfl, hw]
          exact prologHeader?_eq_none (by decide) _
  | true =>
      generalize hrest : (if doctype then doctypeLine else []) ++ '<' :: d :: body = rest
      have hlines : headerLines true doctype ++ '<' :: d :: body =
          canonicalProlog ++ '\n' :: rest := by
        simp [headerLines_eq, prologLine, ← hrest]
      have hcons : ∃ r, canonicalProlog = '<' :: r := ⟨canonicalProlog.drop 1, by decide⟩
      have hstart : markSize (canonicalProlog ++ '\n' :: rest) = 0 := by
        obtain ⟨r, hr⟩ := hcons
        rw [hr]
        exact markSize_cons_bracket _
      have hopening : ∃ w, canonicalProlog = "<?xml".toList ++ ' ' :: w :=
        ⟨canonicalProlog.drop 6, by decide⟩
      have hafter : ∃ w, Text.afterPrefix? "<?xml".toList (canonicalProlog ++ '\n' :: rest) =
          some (' ' :: w) := by
        obtain ⟨w, hw⟩ := hopening
        refine ⟨w ++ '\n' :: rest, Text.afterPrefix?_eq_some_iff.mpr ?_⟩
        rw [hw, List.append_assoc, List.cons_append]
      obtain ⟨w, hafter⟩ := hafter
      have hblank : isWhiteSpace ' ' = true := by
        decide
      have hline : (canonicalProlog ++ '\n' :: rest).takeWhile (· != '\n') = canonicalProlog :=
        takeWhile_append_cons (List.all_eq_true.mp (by decide)) (by decide)
      have hwhole : throughFirst '>' canonicalProlog = canonicalProlog := by
        decide
      have hdrop : Text.dropBytes 0 (canonicalProlog ++ '\n' :: rest) =
          canonicalProlog ++ '\n' :: rest :=
        Text.dropBytes_size_append [] _
      rw [hlines, prologHeader?, hstart]
      dsimp only
      rw [hdrop, hafter]
      simp [hblank, hline, hwhole]

end HeaderLines

/-- Header lines with pieces after them. -/
def document (prolog doctype : Bool) (pieces : List Piece) : Text :=
  headerLines prolog doctype ++ Piece.writtenAll pieces

section Documents

variable {prolog doctype : Bool} {pieces : List Piece}

/-- A document of pieces hides nothing. -/
theorem mask_document (h : ∀ p ∈ pieces, p.Valid) :
    mask (document prolog doctype pieces) = document prolog doctype pieces := by
  have hpieces := marksFrom_append (Piece.freeOfDeclarations_writtenAll h) []
  rw [List.append_nil] at hpieces
  refine mask_eq_self ?_
  rw [document, marksFrom_headerLines, hpieces, ← List.append_assoc,
    List.replicate_append_replicate, ← List.length_append]
  exact List.append_nil _

theorem tags_scan_document (h : ∀ p ∈ pieces, p.Valid) :
    (scan (document prolog doctype pieces)).tags =
      (Piece.tagsFrom (Text.size (headerLines prolog doctype)) pieces).map
        (TagToken.ofText (LineIndex.ofText (document prolog doctype pieces))) := by
  unfold scan
  dsimp only
  rw [mask_document h, document, all_headerLines, Piece.all_writtenAll h]

theorem openEntities_scan_document (h : ∀ p ∈ pieces, p.Valid) :
    (scan (document prolog doctype pieces)).entities.filter (fun e => !e.terminated) =
      (Piece.openReferencesFrom (Text.size (headerLines prolog doctype)) pieces).map
        (EntityToken.ofText (LineIndex.ofText (document prolog doctype pieces))) := by
  have hopen : EntityText.openFrom 0 (document prolog doctype pieces) =
      Piece.openReferencesFrom (Text.size (headerLines prolog doctype)) pieces := by
    rw [document, openFrom_headerLines, Piece.openFrom_writtenAll h]
  unfold scan
  dsimp only
  rw [mask_document h, List.filter_map, ← hopen]
  rfl

theorem doctype_scan_document (h : ∀ p ∈ pieces, p.Valid) :
    (scan (document prolog doctype pieces)).doctype =
      if doctype then
        some ⟨canonicalDoctype, Text.size (headerLines prolog false),
          Text.size (headerLines prolog false) + Text.size canonicalDoctype⟩
      else none := by
  unfold scan
  dsimp only
  rw [mask_document h]
  exact doctypeHeader?_headerLines prolog doctype (Piece.freeOfDeclarations_writtenAll h)

/-- A document begins with a tag after its header lines. -/
theorem exists_document_eq (prolog doctype : Bool) (form : TagForm) {name : Text}
    (hname : IsElementName name) (list : List WrittenAttribute) (rest : List Piece) :
    ∃ d body, d ≠ '?' ∧ document prolog doctype (.tag form name list :: rest) =
      headerLines prolog doctype ++ '<' :: d :: body := by
  obtain ⟨c, r, hcons, hc⟩ := hname.exists_cons
  refine ⟨c, r ++ Piece.body list ++ (if form != .opening then ['/', '>'] else ['>']) ++
    Piece.writtenAll rest, ?_, ?_⟩
  · rintro rfl
    revert hc
    decide
  · rw [document, Piece.writtenAll_cons, Piece.written_tag, hcons]
    simp

/-- A document begins with an angle bracket, so with no byte order mark. -/
theorem markSize_document (prolog doctype : Bool) (form : TagForm) {name : Text}
    (hname : IsElementName name) (list : List WrittenAttribute) (rest : List Piece) :
    markSize (document prolog doctype (.tag form name list :: rest)) = 0 := by
  have hbracket : ∃ r, document prolog doctype (.tag form name list :: rest) = '<' :: r := by
    obtain ⟨d, body, _, hdocument⟩ := exists_document_eq prolog doctype form hname list rest
    obtain ⟨w, hprolog, _⟩ := exists_prologLine
    obtain ⟨v, hdoctype, _⟩ := exists_doctypeLine
    rw [hdocument, headerLines_eq, hprolog, hdoctype]
    cases prolog <;> cases doctype <;> exact ⟨_, rfl⟩
  obtain ⟨r, hr⟩ := hbracket
  rw [hr]
  exact markSize_cons_bracket r

theorem prolog_scan_document {form : TagForm} {name : Text} {list : List WrittenAttribute}
    (hname : IsElementName name) (rest : List Piece) :
    (scan (document prolog doctype (.tag form name list :: rest))).prolog =
      if prolog then some ⟨canonicalProlog, 0, Text.size canonicalProlog⟩ else none := by
  obtain ⟨d, body, hd, hdocument⟩ := exists_document_eq prolog doctype form hname list rest
  rw [hdocument]
  exact prologHeader?_headerLines prolog doctype hd body

end Documents

end MarkupRepair
