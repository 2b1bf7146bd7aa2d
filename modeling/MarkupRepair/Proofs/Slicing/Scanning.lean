import MarkupRepair.Proofs.Markup.Sections
import MarkupRepair.Proofs.Repair.Sheltered
import MarkupRepair.Proofs.Repair.Sections
import MarkupRepair.Proofs.Slicing.Attributes

/-!
# Slicing a document into a scan

A scan takes its sections, declarations, tags and references from the text by slices at the offsets
where they were found. None of the slices fails, and the scan they make up is the scan of the
document.
-/

namespace MarkupRepair

section Masking

/-- The places of the hidden sections in marked characters that begin at an offset. -/
def sectionSpansFrom (offset : Nat) : List (Char × Mark) → List Span
  | [] => []
  | (c, .opens) :: r =>
      ⟨offset, offset + Text.size (c :: (r.takeWhile (·.2 == .within)).map (·.1))⟩ ::
        sectionSpansFrom (offset + c.utf8Size) r
  | (c, _) :: r => sectionSpansFrom (offset + c.utf8Size) r

/-- The places of the hidden sections of a text. -/
def sectionSpans (t : Text) : List Span := sectionSpansFrom 0 (t.zip (marks t))

/-- The masked text from the end of a section on, given the places of those to come. -/
def maskBetween (t : Text) (last : Nat) : List Span → Sliced Text
  | [] => t.cut ⟨last, Text.size t⟩
  | s :: later => do
      let plain ← t.cut ⟨last, s.start⟩
      let hidden ← t.cut s
      let masked ← maskBetween t s.stop later
      return plain ++ (hidden.flatMap (maskChar · .within) ++ masked)

/-- The text with its hidden sections blanked, sliced. A text without declarations has none. -/
def maskSliced (t : Text) : Sliced Text :=
  if (Text.find? ['<', '!'] t).isNone then .ok t else maskBetween t 0 (sectionSpans t)

variable {segments : List Segment} {t : Text}

/-- The places of the sections among segments that begin at an offset. -/
def Segment.spans (offset : Nat) : List Segment → List Span
  | [] => []
  | .plain c :: rest => spans (offset + c.utf8Size) rest
  | .hidden s :: rest => ⟨offset, offset + Text.size s⟩ :: spans (offset + Text.size s) rest

theorem sectionSpansFrom_map_within (offset : Nat) (r : Text) (later : List (Char × Mark)) :
    sectionSpansFrom offset (r.map (·, Mark.within) ++ later) =
      sectionSpansFrom (offset + Text.size r) later := by
  induction r generalizing offset with
  | nil => rfl
  | cons c r ih =>
      rw [List.map_cons, List.cons_append, sectionSpansFrom, ih, Text.size_cons, Nat.add_assoc]
      rintro ⟨⟩

/-- The sections are where the segments have them. -/
theorem Segment.WellCut.sectionSpansFrom_eq (h : WellCut segments) (offset : Nat) :
    sectionSpansFrom offset (segments.flatMap marked) = spans offset segments := by
  induction h generalizing offset with
  | nil => rfl
  | plain _ _ ih => exact ih _
  | @hidden s rest hreads hrest ih =>
      obtain ⟨r, rfl, -⟩ := exists_eq_cons_of_readsHidden hreads
      rw [List.flatMap_cons, marked_hidden_cons, List.cons_append, sectionSpansFrom,
        hrest.takeWhile_map_within, sectionSpansFrom_map_within, ih, spans, Nat.add_assoc]
      simp [Function.comp_def]

/-- Slicing between the sections and at the sections gives the masked text. -/
theorem Segment.maskBetween_eq_ok (segments : List Segment) (front plain : Text) :
    maskBetween (front ++ (plain ++ writtenAll segments)) (Text.size front)
      (spans (Text.size front + Text.size plain) segments) = .ok (plain ++ maskedAll segments) := by
  induction segments generalizing front plain with
  | nil =>
      have hcut := Text.cut_from front plain
      rw [spans, maskBetween, writtenAll_nil, List.append_nil, hcut]
      simp [maskedAll]
  | cons s segments ih =>
      cases s with
      | plain c =>
          have hlater := ih front (plain ++ [c])
          simpa [spans, Nat.add_assoc] using hlater
      | hidden s =>
          have hplain := Text.cut_append front plain (s ++ writtenAll segments)
          have hhidden := Text.cut_append (front ++ plain) s (writtenAll segments)
          have hlater := ih (front ++ plain ++ s) []
          rw [Text.size_append, List.append_assoc] at hhidden
          rw [List.nil_append, Text.size_append, Text.size_append, Text.size_nil, Nat.add_zero,
            List.append_assoc, List.append_assoc, List.nil_append] at hlater
          rw [spans, maskBetween, writtenAll_hidden_cons, hplain, Sliced.ok_bind, hhidden,
            Sliced.ok_bind, hlater, Sliced.ok_bind]
          rfl

/-- A text in which no declaration begins has no section. -/
theorem mask_eq_self_of_find? (h : Text.find? ['<', '!'] t = none) : mask t = t := by
  refine mask_eq_self ?_
  induction t with
  | nil => rfl
  | cons c r ih =>
      unfold Text.find? at h
      split at h
      next => cases h
      next hstarts =>
        have hat : HiddenKind.at? (c :: r) = none := by
          rw [HiddenKind.at?_eq_none_iff]
          intro kind hopener
          have hdeclaration : ['<', '!'] <+: kind.opener := by
            cases kind <;> exact ⟨_, rfl⟩
          exact hstarts (Text.startsWith_iff.mpr (hdeclaration.trans hopener))
        rw [marksFrom, hat, ih (Option.map_eq_none_iff.mp h), List.length_cons,
          List.replicate_succ]

/-- The masked text is sliced from the text. -/
theorem maskSliced_eq_ok (t : Text) : maskSliced t = .ok (mask t) := by
  unfold maskSliced
  split
  next hnone => rw [mask_eq_self_of_find? (Option.isNone_iff_eq_none.mp hnone)]
  next =>
    obtain ⟨segments, hcut, rfl, -⟩ := Segment.exists_wellCut t
    rw [sectionSpans, hcut.zip_marks, hcut.sectionSpansFrom_eq, hcut.mask_eq]
    exact Segment.maskBetween_eq_ok segments [] []

end Masking

section Declarations

/-- The XML declaration of a text, sliced from the line that it stands in. -/
def prologSliced (t : Text) : Sliced (Option Header) :=
  match t.from? (markSize t) with
  | none => .ok none
  | some rest =>
      match Text.afterPrefix? "<?xml".toList rest with
      | some (c :: _) =>
          if isWhiteSpace c || c == '?' || c == '>' then do
            let lineEnd := (Text.firstOffset? (· == '\n') rest).getD (Text.size rest)
            let line ← rest.cut ⟨0, lineEnd⟩
            let length := match Text.firstOffset? (· == '>') line with
              | some i => i + 1
              | none => lineEnd
            let text ← rest.cut ⟨0, length⟩
            return some ⟨text, markSize t, markSize t + length⟩
          else .ok none
      | _ => .ok none

/-- The document type of a masked text, sliced from it. -/
def doctypeSliced (masked : Text) : Sliced (Option Header) :=
  match doctypeHeader? 0 masked with
  | some header => do
      let text ← masked.cut header.span
      return some ⟨text, header.span⟩
  | none => .ok none

variable {t masked : Text}

/-- The text up to and including the first mark ends behind the offset of that mark. -/
theorem size_throughFirst {stop : Char} (hstop : stop.utf8Size = 1) (t : Text) :
    (match Text.firstOffset? (· == stop) t with
      | some i => i + 1
      | none => Text.size t) = Text.size (throughFirst stop t) := by
  induction t with
  | nil => rfl
  | cons c r ih =>
      by_cases hc : c = stop
      · simp [Text.firstOffset?, throughFirst, hc, hstop]
      · rw [throughFirst, if_neg hc, Text.size_cons (r := throughFirst stop r), ← ih,
          Text.firstOffset?, if_neg (by simpa using hc)]
        cases Text.firstOffset? (· == stop) r with
        | none => rfl
        | some i => exact Nat.add_assoc _ _ _

/-- The XML declaration is sliced from the text. -/
theorem prologSliced_eq_ok (t : Text) : prologSliced t = .ok (prologHeader? t) := by
  obtain ⟨front, rest, rfl, hsize, -⟩ := exists_markSize_eq t
  rw [prologSliced, prologHeader?, hsize, Text.from?_append, Text.dropBytes_size_append]
  dsimp only
  cases Text.afterPrefix? "<?xml".toList rest with
  | none => rfl
  | some after =>
      cases after with
      | nil => rfl
      | cons c after =>
          dsimp only
          split
          next =>
            have hline := Text.cut_takeWhile (fun c => !(c == '\n')) rest
            have hlength :=
              @size_throughFirst '>' rfl (rest.takeWhile fun c => !(c == '\n'))
            obtain ⟨later, hlater⟩ := (throughFirst_isPrefix '>'
              (rest.takeWhile fun c => !(c == '\n'))).trans (List.takeWhile_prefix _)
            have hcut :=
              Text.cut_upTo (throughFirst '>' (rest.takeWhile fun c => !(c == '\n'))) later
            rw [hlater] at hcut
            rw [Text.getD_firstOffset?, hline, Sliced.ok_bind, hlength, hcut]
            rfl
          next => rfl

/-- The document type is sliced from the masked text. -/
theorem doctypeSliced_eq_ok (masked : Text) :
    doctypeSliced masked = .ok (doctypeHeader? 0 masked) := by
  unfold doctypeSliced
  split
  next header hheader =>
    obtain ⟨a, q, b, rfl, htext, -, hspan⟩ := exists_of_doctypeHeader? hheader
    have hcut := Text.cut_append a header.text b
    have hparts : a ++ (header.text ++ b) = a ++ '<' :: (q ++ '>' :: b) := by
      simp [htext]
    rw [hparts] at hcut
    rw [Nat.zero_add] at hspan
    rw [hspan, hcut, Sliced.ok_bind, ← hspan, hheader]
    rfl
  next hnone => rw [hnone]

end Declarations

/-- Name and body of a tag that was found at an offset of a text, sliced from the text. -/
def TagText.sliced (t : Text) (offset : Nat) (tag : TagText) : Sliced (Text × Text) := do
  let nameStart := offset + 1 + (if tag.leadingSlash then 1 else 0)
  let bodyStart := nameStart + Text.size tag.name
  let name ← t.cut ⟨nameStart, bodyStart⟩
  let body ← t.cut ⟨bodyStart, bodyStart + Text.size tag.body⟩
  return (name, body)

/-- The token of a tag that was found at an offset, sliced from the text. -/
def TagToken.sliced (index : LineIndex) (t : Text) (found : Nat × TagText) : Sliced TagToken := do
  let (offset, tag) := found
  let (name, body) ← tag.sliced t offset
  let attributes ← if tag.kind = .closing then .ok []
    else AttributeToken.sliced index (offset + tag.bodyOffset) body 0
  return {
    kind := tag.kind
    name := Text.toLowerAscii name
    span := ⟨offset, offset + tag.size⟩
    position := index.position offset
    attributes := attributes }

/-- The token of a reference that was found at an offset, sliced from the text. -/
def EntityToken.sliced (index : LineIndex) (t : Text) (found : Nat × EntityText) :
    Sliced EntityToken := do
  let (offset, e) := found
  let name ← t.cut ⟨offset + 1, offset + 1 + Text.size e.name⟩
  return {
    text := '&' :: name
    terminated := e.terminated
    span := ⟨offset, offset + e.size⟩
    position := index.position offset }

/-- The scan of a document, sliced from it. -/
def scanSliced (t : Text) : Sliced Scan := do
  let masked ← maskSliced t
  let index := LineIndex.ofText t
  let prolog ← prologSliced t
  let doctype ← doctypeSliced masked
  let tags ← (TagText.all 0 masked).mapM (TagToken.sliced index masked)
  let entities ← (EntityText.all 0 masked).mapM (EntityToken.sliced index masked)
  return {
    byteOrderMark := hasByteOrderMark t
    prolog := prolog
    doctype := doctype
    tags := tags
    entities := entities }

section Tokens

variable {t : Text}

/-- Name and body of a tag are sliced from its characters. -/
theorem TagText.sliced_eq_ok (tag : TagText) (front rest : Text) :
    tag.sliced (front ++ (tag.toText ++ rest)) (Text.size front) = .ok (tag.name, tag.body) := by
  set start := front ++ '<' :: (if tag.leadingSlash then ['/'] else []) with hstart
  set last := (if tag.trailingSlash then ['/'] else []) ++ '>' :: rest
  have hname := Text.cut_append start tag.name (tag.body ++ last)
  have hbody := Text.cut_append (start ++ tag.name) tag.body last
  have htext : front ++ (tag.toText ++ rest) = start ++ (tag.name ++ (tag.body ++ last)) := by
    simp [TagText.toText, start, last]
  have hsize : Text.size start = Text.size front + 1 + if tag.leadingSlash then 1 else 0 := by
    rw [hstart]
    cases tag.leadingSlash <;> simp <;> rfl
  rw [List.append_assoc, Text.size_append] at hbody
  rw [TagText.sliced, htext]
  rw [← hsize, hname, Sliced.ok_bind, hbody]
  rfl

/-- Name and body of the tag that a text begins with are sliced from the text. -/
theorem TagText.sliced_of_atStart? {tag : TagText} (h : atStart? t = some tag) :
    tag.sliced t 0 = .ok (tag.name, tag.body) := by
  obtain ⟨rest, rfl⟩ := exists_toText_append h
  exact sliced_eq_ok tag [] rest

/-- The token of a tag of a text is sliced from the text. -/
theorem TagToken.sliced_eq_ok {found : Nat × TagText} (index : LineIndex)
    (h : found ∈ TagText.all 0 t) : sliced index t found = .ok (ofText index found) := by
  obtain ⟨offset, tag⟩ := found
  obtain ⟨a, b, rfl, rfl, htag⟩ := TagText.exists_of_mem_all h
  obtain ⟨rest, rfl⟩ := TagText.exists_toText_append htag
  have hattributes := AttributeToken.sliced_eq_ok index (Text.size a + tag.bodyOffset) [] tag.body
  rw [List.nil_append, Text.size_nil, Nat.add_zero] at hattributes
  rw [sliced, Nat.zero_add]
  dsimp only
  rw [TagText.sliced_eq_ok, Sliced.ok_bind]
  dsimp only
  rw [hattributes, ofText]
  split <;> rfl

/-- The token of a reference of a text is sliced from the text. -/
theorem EntityToken.sliced_eq_ok {found : Nat × EntityText} (index : LineIndex)
    (h : found ∈ EntityText.all 0 t) : sliced index t found = .ok (ofText index found) := by
  obtain ⟨offset, e⟩ := found
  obtain ⟨a, b, rfl, rfl, rfl⟩ := EntityText.exists_of_mem_all h
  have hcut := Text.cut_append (a ++ ['&']) (b.takeWhile isEntityNameChar)
    (b.dropWhile isEntityNameChar)
  have hone : Text.size ['&'] = 1 := rfl
  rw [List.takeWhile_append_dropWhile, List.append_assoc, List.singleton_append, Text.size_append,
    hone] at hcut
  rw [sliced, Nat.zero_add]
  exact congrArg (· >>= _) hcut

/-- A scan slices nothing that fails, and it is the scan of the document. -/
theorem scanSliced_eq_ok (t : Text) : scanSliced t = .ok (scan t) := by
  rw [scanSliced, maskSliced_eq_ok, Sliced.ok_bind]
  dsimp only
  rw [prologSliced_eq_ok, Sliced.ok_bind, doctypeSliced_eq_ok, Sliced.ok_bind,
    Sliced.mapM_eq_ok fun _ => TagToken.sliced_eq_ok (LineIndex.ofText t), Sliced.ok_bind,
    Sliced.mapM_eq_ok fun _ => EntityToken.sliced_eq_ok (LineIndex.ofText t), Sliced.ok_bind]
  rfl

end Tokens

end MarkupRepair
