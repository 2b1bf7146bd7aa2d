import MarkupRepair.Proofs.Markup.Apart
import MarkupRepair.Proofs.Markup.Seam
import MarkupRepair.Proofs.Text.Lines

/-!
# Printed tags are read back

A tag is printed as its name and its attributes, each in double or in single quotes. Whatever the
values hold but the quote around them and an opening bracket, the tag is read up to the bracket it
was printed with: a quoted value is passed over as a whole, so that reading on is in phase again
behind it. The same holds of the attributes in the body of the tag.
-/

namespace MarkupRepair

/-- An attribute whose value is printed between quotes. -/
structure QuotedAttribute where
  /-- The name. -/
  name : Text
  /-- The quote around the value. -/
  quote : Char
  /-- The value. -/
  value : Text
  deriving DecidableEq, Repr

namespace QuotedAttribute

/-- The value between its quotes. -/
def quoted (a : QuotedAttribute) : Text := a.quote :: (a.value ++ [a.quote])

/-- The attribute with a blank in front. -/
def written (a : QuotedAttribute) : Text := ' ' :: (a.name ++ '=' :: a.quoted)

/-- The way of quoting. -/
def quoting (a : QuotedAttribute) : Quoting := if a.quote = '"' then .double else .single

/-- The attribute as it is read. -/
def text (a : QuotedAttribute) : AttributeText := ⟨a.name, [], [], a.quoted, a.value, a.quoting⟩

/-- Whether an attribute can be printed: its name begins like one and has name characters only, and
the value has neither the quote around it nor an opening bracket. -/
structure Printable (a : QuotedAttribute) : Prop where
  /-- The name begins like one. -/
  nameStart : a.name.head?.any AttributeText.isNameStart = true
  /-- The name has name characters only. -/
  nameChars : ∀ c ∈ a.name, isNameChar c = true
  /-- The value stands between double or single quotes. -/
  quote : a.quote = '"' ∨ a.quote = '\''
  /-- The value has none of the quotes around it. -/
  noQuote : a.quote ∉ a.value
  /-- The value begins no tag. -/
  noBracket : '<' ∉ a.value

instance : DecidablePred Printable := fun a =>
  decidable_of_iff
    (a.name.head?.any AttributeText.isNameStart = true ∧ a.name.all isNameChar = true ∧
      (a.quote = '"' ∨ a.quote = '\'') ∧ a.quote ∉ a.value ∧ '<' ∉ a.value)
    ⟨fun ⟨start, chars, quote, noQuote, noBracket⟩ =>
      ⟨start, List.all_eq_true.mp chars, quote, noQuote, noBracket⟩,
      fun h => ⟨h.nameStart, List.all_eq_true.mpr h.nameChars, h.quote, h.noQuote, h.noBracket⟩⟩

variable {a : QuotedAttribute} {list : List QuotedAttribute}

theorem written_eq_toText (a : QuotedAttribute) : a.written = ' ' :: a.text.toText := by
  simp [written, text, AttributeText.toText, AttributeText.beforeValue]

theorem Printable.bracket_not_mem (ha : a.Printable) : '<' ∉ a.written := by
  have hname : '<' ∉ a.name := not_mem_of_class ha.nameChars (by decide)
  have hquote : '<' ≠ a.quote := by
    rcases ha.quote with h | h <;> rw [h] <;> decide
  simp [written, quoted, hname, hquote, ha.noBracket]

/-- The attribute is read as it is printed. An empty value must not be followed by its quote. -/
theorem Printable.read?_append (ha : a.Printable) {more : Text}
    (hmore : a.value = [] → more.head? ≠ some a.quote) :
    AttributeText.read? (a.text.toText ++ more) = some a.text := by
  have hsplit : a.text.toText ++ more =
      a.name ++ '=' :: a.quote :: (a.value ++ a.quote :: more) := by
    simp [text, quoted, AttributeText.toText, AttributeText.beforeValue]
  rw [hsplit, AttributeText.read?_append ha.nameStart ha.nameChars,
    ValueText.read_between ha.quote ha.noQuote hmore]
  rfl

/-- The attribute is read first, and the others behind it. -/
theorem Printable.all_append (ha : a.Printable) {more : Text}
    (hmore : a.value = [] → more.head? ≠ some a.quote) (offset : Nat) :
    AttributeText.all offset 0 (a.written ++ more) =
      (offset + 1, a.text) :: AttributeText.all (offset + Text.size a.written) 0 more := by
  have hone : ' '.utf8Size = 1 := rfl
  rw [written_eq_toText, List.cons_append,
    WrittenAttribute.all_cons_of_read? (by decide) (ha.read?_append hmore),
    WrittenAttribute.all_skip, Text.size_cons, hone, Nat.add_assoc]

/-- The attributes behind the name of a tag. -/
def body (list : List QuotedAttribute) : Text := list.flatMap written

theorem body_cons (a : QuotedAttribute) (list : List QuotedAttribute) :
    body (a :: list) = a.written ++ body list := rfl

theorem bracket_not_mem_body (hlist : ∀ a ∈ list, a.Printable) : '<' ∉ body list := by
  rw [body, List.mem_flatMap]
  rintro ⟨a, ha, hmem⟩
  exact (hlist a ha).bracket_not_mem hmem

/-- An attribute ends with its quote, so that no slash at its end belongs to the tag. -/
theorem getLast?_body_ne_slash (hlist : ∀ a ∈ list, a.Printable) :
    (body list).getLast? ≠ some '/' := by
  rcases List.eq_nil_or_concat' list with rfl | ⟨front, a, rfl⟩
  · simp [body]
  · have ha := (hlist a (by simp)).quote
    have hend : body (front ++ [a]) =
        body front ++ (' ' :: (a.name ++ '=' :: a.quote :: a.value)) ++ [a.quote] := by
      simp [body, written, quoted]
    rw [hend, List.getLast?_concat]
    rcases ha with h | h <;> rw [h] <;> decide

/-- The token of an attribute that is printed behind a text. -/
def token (before : Text) (a : QuotedAttribute) : AttributeToken :=
  let start := Text.size (before ++ ' ' :: (a.name ++ ['=']))
  { name := a.name
    value := a.value
    raw := a.quoted
    quoting := a.quoting
    span := ⟨start, start + Text.size a.quoted⟩
    position := Text.endPosition (before ++ [' ']) }

/-- The tokens of attributes that are printed behind a text, one after the other. -/
def tokens (before : Text) : List QuotedAttribute → List AttributeToken
  | [] => []
  | a :: rest => a.token before :: tokens (before ++ a.written) rest

/-- The token of an attribute in a text that it is printed in. -/
theorem ofText_eq_token (before after : Text) (a : QuotedAttribute) :
    AttributeToken.ofText (LineIndex.ofText (before ++ (a.written ++ after)))
      (Text.size before + 1, a.text) = a.token before := by
  have hone : ' '.utf8Size = 1 := rfl
  have hsplit : before ++ (a.written ++ after) = before ++ [' '] ++ (a.text.toText ++ after) := by
    simp [written_eq_toText]
  have hsize : Text.size before + 1 = Text.size (before ++ [' ']) := by
    simp [hone]
  have hposition := LineIndex.position_ofText_append (before ++ [' ']) (a.text.toText ++ after)
  rw [← hsplit, ← hsize] at hposition
  simp only [AttributeToken.ofText, token, hposition]
  simp [text, AttributeText.beforeValue, hone, Nat.add_assoc]

/-- All attributes are read, each where it is printed. -/
theorem map_ofText_all_body (hlist : ∀ a ∈ list, a.Printable) (before after : Text) :
    (AttributeText.all (Text.size before) 0 (body list)).map
      (AttributeToken.ofText (LineIndex.ofText (before ++ (body list ++ after)))) =
        tokens before list := by
  induction list generalizing before with
  | nil => rfl
  | cons a rest ih =>
      rw [List.forall_mem_cons] at hlist
      have hnext : a.value = [] → (body rest).head? ≠ some a.quote := by
        intro _
        cases rest with
        | nil => simp [body]
        | cons b rest => rcases hlist.1.quote with h | h <;> simp [body, written, h]
      have htoken := ofText_eq_token before (body rest ++ after) a
      have hrest := ih hlist.2 (before ++ a.written)
      rw [Text.size_append, List.append_assoc] at hrest
      rw [body_cons, hlist.1.all_append hnext, List.map_cons, List.append_assoc, htoken, hrest]
      rfl

/-- The span of a token covers the quoted value. -/
theorem slice_token (before after : Text) (a : QuotedAttribute) :
    Text.slice (before ++ (a.written ++ after)) (a.token before).span = a.quoted := by
  have hsplit : before ++ (a.written ++ after) =
      before ++ ' ' :: (a.name ++ ['=']) ++ (a.quoted ++ after) := by
    simp [written]
  rw [hsplit]
  exact Text.slice_append _ a.quoted after

/-- The tokens are those of the attributes in order, and their spans cover the quoted values. -/
theorem forall₂_tokens (before after : Text) (list : List QuotedAttribute) :
    List.Forall₂ (fun found a => found.name = a.name ∧ found.value = a.value ∧
        found.quoting = a.quoting ∧
        Text.slice (before ++ (body list ++ after)) found.span = a.quoted)
      (tokens before list) list := by
  induction list generalizing before with
  | nil => exact .nil
  | cons a rest ih =>
      have hrest := ih (before ++ a.written)
      rw [List.append_assoc, ← List.append_assoc a.written, ← body_cons] at hrest
      refine .cons ⟨rfl, rfl, rfl, ?_⟩ hrest
      rw [body_cons, List.append_assoc]
      exact slice_token before _ a

end QuotedAttribute

namespace TagText

variable {inner rest t w : Text} {a : QuotedAttribute} {list : List QuotedAttribute}

/-- Characters that do not decide where a tag ends are passed over. -/
theorem ReadsOn.append (h : ReadsOn t inner rest) (hw : ∀ c ∈ w, isEndMark c = false) :
    ReadsOn (w ++ t) (w ++ inner) rest := by
  induction w with
  | nil => exact h
  | cons c w ih =>
      rw [List.forall_mem_cons] at hw
      have hc := hw.1
      simp only [isEndMark, Bool.or_eq_false_iff, beq_eq_false_iff_ne] at hc
      refine .single hc.2 (fun hopens => ?_) (ih hw.2)
      exact hopens.1.elim hc.1.1 hc.1.2

/-- An attribute is passed over, whatever its value looks like. -/
theorem ReadsOn.quotedAttribute (h : ReadsOn t inner rest) (ht : ClosesSoon t)
    (ha : a.Printable) : ReadsOn (a.written ++ t) (a.written ++ inner) rest := by
  have hopens : OpensQuoted a.quote (a.value ++ a.quote :: t) :=
    ⟨ha.quote, a.value, t, rfl, ha.noQuote, ha.noBracket, ht⟩
  have hchars : ∀ c ∈ a.name, isEndMark c = false := by
    intro c hc
    rw [Bool.eq_false_iff]
    intro hmark
    simp only [isEndMark, Bool.or_eq_true, beq_iff_eq] at hmark
    rcases hmark with (rfl | rfl) | rfl
    all_goals exact absurd (ha.nameChars _ hc) (by decide)
  have hname : ∀ c ∈ ' ' :: (a.name ++ ['=']), isEndMark c = false := by
    simp only [List.forall_mem_cons, List.forall_mem_append]
    exact ⟨rfl, hchars, rfl, by simp⟩
  have hreads := (ReadsOn.quoted hopens ha.noQuote h).append hname
  simpa [QuotedAttribute.written, QuotedAttribute.quoted] using hreads

/-- A `>` comes soon after attributes if it does behind them. -/
theorem ClosesSoon.body_append (ht : ClosesSoon t) (hlist : ∀ a ∈ list, a.Printable) :
    ClosesSoon (QuotedAttribute.body list ++ t) := by
  obtain ⟨u, v, rfl, hu⟩ := ht
  refine ⟨QuotedAttribute.body list ++ u, v, by simp, ?_⟩
  simp [QuotedAttribute.bracket_not_mem_body hlist, hu]

/-- Attributes are passed over one after the other. -/
theorem ReadsOn.body (h : ReadsOn t inner rest) (ht : ClosesSoon t)
    (hlist : ∀ a ∈ list, a.Printable) :
    ReadsOn (QuotedAttribute.body list ++ t) (QuotedAttribute.body list ++ inner) rest := by
  induction list with
  | nil => exact h
  | cons a more ih =>
      rw [List.forall_mem_cons] at hlist
      rw [QuotedAttribute.body_cons, List.append_assoc, List.append_assoc]
      exact (ih hlist.2).quotedAttribute (ht.body_append hlist.2) hlist.1

end TagText

/-- A tag with a name and attributes, which may close itself. -/
def printTag (name : Text) (list : List QuotedAttribute) (slash : Bool) : Text :=
  '<' :: (name ++ (QuotedAttribute.body list ++ if slash then ['/', '>'] else ['>']))

section PrintTag

variable {name : Text} {list : List QuotedAttribute}

/-- The parts of a printed tag. -/
theorem parts_printTag (hname : IsTagName name) (hlist : ∀ a ∈ list, a.Printable) (slash : Bool)
    (rest : Text) :
    TagText.Parts ([] ++ (name ++ (QuotedAttribute.body list ++ (if slash then ['/'] else []) ++
      '>' :: rest))) [] name (QuotedAttribute.body list ++ if slash then ['/'] else []) rest := by
  obtain ⟨close, hclose⟩ : ∃ close : Text, close = if slash then ['/'] else [] := ⟨_, rfl⟩
  rw [← hclose]
  have hplain : ∀ c ∈ close, TagText.isEndMark c = false ∧ c ≠ '<' := by
    subst hclose
    cases slash <;> simp [TagText.isEndMark]
  have hopen : '<' ∉ close := fun hmem => (hplain _ hmem).2 rfl
  have hcloses : TagText.ClosesSoon (close ++ '>' :: rest) := ⟨close, rest, rfl, hopen⟩
  have hend := (TagText.ReadsOn.ends rest).append fun c hc => (hplain c hc).1
  rw [List.append_nil] at hend
  refine ⟨rfl, .inl rfl, hname.letter, hname.nameChars, ?_, ?_, ?_⟩
  · cases list with
    | nil =>
        subst hclose
        cases slash <;> rfl
    | cons a more => rfl
  · rw [List.append_assoc]
    exact hcloses.body_append hlist
  · rw [List.append_assoc]
    exact hend.body hcloses hlist

theorem printTag_append (name : Text) (list : List QuotedAttribute) (slash : Bool) (rest : Text) :
    printTag name list slash ++ rest = '<' :: ([] ++ (name ++ (QuotedAttribute.body list ++
      (if slash then ['/'] else []) ++ '>' :: rest))) := by
  cases slash <;> simp [printTag]

/-- The attributes stand between the name and the end of the tag. -/
theorem printTag_append_eq_body (name : Text) (list : List QuotedAttribute) (slash : Bool)
    (following : Text) : printTag name list slash ++ following = '<' :: name ++
      (QuotedAttribute.body list ++ ((if slash then ['/', '>'] else ['>']) ++ following)) := by
  simp [printTag]

/-- The tag that is read has the attributes for its body. -/
theorem ofParts_printTag (hlist : ∀ a ∈ list, a.Printable) (slash : Bool) :
    TagText.ofParts [] name (QuotedAttribute.body list ++ if slash then ['/'] else []) =
      ⟨false, name, QuotedAttribute.body list, slash⟩ := by
  have hlast := QuotedAttribute.getLast?_body_ne_slash hlist
  cases slash <;> simp [TagText.ofParts, TagText.bodyOf, hlast]

theorem toText_printTag (name : Text) (list : List QuotedAttribute) (slash : Bool) :
    TagText.toText ⟨false, name, QuotedAttribute.body list, slash⟩ = printTag name list slash := by
  cases slash <;> simp [TagText.toText, printTag]

/-- A printed tag is masked as it is. -/
theorem exists_mask_printTag (hname : IsTagName name) (hlist : ∀ a ∈ list, a.Printable)
    (slash : Bool) (following : Text) :
    ∃ rest, mask (printTag name list slash ++ following) = printTag name list slash ++ rest := by
  have hopens := TagText.opensNothing_toText (parts_printTag hname hlist slash following).read?_eq
  rw [ofParts_printTag hlist, toText_printTag] at hopens
  have hmask := maskFrom_append (marksFrom_none_append hopens following)
  exact ⟨maskFrom none following, hmask.trans (congrArg (· ++ _) (List.flatMap_singleton' _))⟩

/-- The token of a printed tag. -/
theorem ofText_printTag (hlist : ∀ a ∈ list, a.Printable) (name : Text) (slash : Bool)
    (following : Text) :
    TagToken.ofText (LineIndex.ofText (printTag name list slash ++ following))
        (0, ⟨false, name, QuotedAttribute.body list, slash⟩) =
      { kind := if slash then .selfClosing else .opening
        name := Text.toLowerAscii name
        span := ⟨0, Text.size (printTag name list slash)⟩
        position := ⟨1, 1⟩
        attributes := QuotedAttribute.tokens ('<' :: name) list } := by
  have hkind : TagText.kind ⟨false, name, QuotedAttribute.body list, slash⟩ =
      if slash then .selfClosing else .opening := rfl
  have hopen : (if slash then TagKind.selfClosing else .opening) ≠ .closing := by
    cases slash <;> decide
  have hposition : (LineIndex.ofText (printTag name list slash ++ following)).position 0 = ⟨1, 1⟩ :=
    LineIndex.position_ofText_append [] _
  have hoffset : 0 + TagText.bodyOffset ⟨false, name, QuotedAttribute.body list, slash⟩ =
      Text.size ('<' :: name) := by
    simp [TagText.bodyOffset]
    rfl
  have hattributes := QuotedAttribute.map_ofText_all_body hlist ('<' :: name)
    ((if slash then ['/', '>'] else ['>']) ++ following)
  rw [← printTag_append_eq_body] at hattributes
  simp only [TagToken.ofText, hkind, if_neg hopen, hoffset, hattributes, hposition,
    TagText.size, toText_printTag, Nat.zero_add]

/-- The first tag of a text that begins with a printed tag is that tag: from its opening bracket to
the closing one, with the attributes in order, their names, values and quotes as printed and their
spans over the quoted values. -/
theorem head?_tags_printTag (name : Text) (list : List QuotedAttribute) (slash : Bool)
    (following : Text) (hname : IsTagName name) (hlist : ∀ a ∈ list, a.Printable) :
    (scan (printTag name list slash ++ following)).tags.head? = some
        { kind := if slash then .selfClosing else .opening
          name := Text.toLowerAscii name
          span := ⟨0, Text.size (printTag name list slash)⟩
          position := ⟨1, 1⟩
          attributes := QuotedAttribute.tokens ('<' :: name) list } ∧
      List.Forall₂ (fun found a => found.name = a.name ∧ found.value = a.value ∧
          found.quoting = a.quoting ∧
          Text.slice (printTag name list slash ++ following) found.span = a.quoted)
        (QuotedAttribute.tokens ('<' :: name) list) list := by
  obtain ⟨rest, hmask⟩ := exists_mask_printTag hname hlist slash following
  have hall := (parts_printTag hname hlist slash rest).all_eq 0
  rw [← printTag_append, ← hmask, ofParts_printTag hlist] at hall
  constructor
  · rw [← ofText_printTag hlist name slash following, scan, hall]
    rfl
  · rw [printTag_append_eq_body]
    exact QuotedAttribute.forall₂_tokens ('<' :: name) _ list

/-- Values with brackets, the other quote, a line feed and what looks like an attribute in them, and
an empty one. -/
theorem head?_tags_printTag_values :
    let list : List QuotedAttribute := [⟨"_a.b".toList, '"', "x>\n'/> c='é'".toList⟩,
      ⟨['d'], '\'', []⟩, ⟨['e'], '\'', "\" f=\"/>".toList⟩]
    let t := printTag ['P', '1'] list true ++ "\" '> <!--".toList
    t = "<P1 _a.b=\"x>\n'/> c='é'\" d='' e='\" f=\"/>'/>\" '> <!--".toList ∧
      (scan t).tags.head? = some
        { kind := .selfClosing
          name := ['p', '1']
          span := ⟨0, 43⟩
          position := ⟨1, 1⟩
          attributes := QuotedAttribute.tokens "<P1".toList list } ∧
      List.Forall₂ (fun found a => found.name = a.name ∧ found.value = a.value ∧
          found.quoting = a.quoting ∧ Text.slice t found.span = a.quoted)
        (QuotedAttribute.tokens "<P1".toList list) list := by
  intro list t
  have hname : IsTagName ['P', '1'] := ⟨by decide, List.all_eq_true.mp (by decide)⟩
  have hlist : ∀ a ∈ list, a.Printable := by
    decide +kernel
  exact ⟨by decide +kernel,
    head?_tags_printTag ['P', '1'] list true "\" '> <!--".toList hname hlist⟩

end PrintTag

end MarkupRepair
