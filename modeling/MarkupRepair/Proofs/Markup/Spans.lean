import MarkupRepair.Proofs.Markup.Outside
import MarkupRepair.Proofs.Slicing.Fixes

/-!
# Spans of tokens

The spans of tags and those of references follow one another without overlapping, and so do the
attributes of a tag. A span is found in the masked text, and a section takes as many bytes there as
in the text. At each end of a span stands a character that no section leaves in the masked text, so
the end falls between two characters of the text, and no section has it inside. Headers are no
tokens: the XML declaration is read from the text itself.
-/

namespace MarkupRepair

/-- Whether an offset falls between two characters of a document and is inside of no section. -/
structure IsClear (t : Text) (offset : Nat) : Prop where
  /-- The offset does not fall into a character. -/
  place : Text.isBoundary offset t = true
  /-- Every section begins at the offset or behind it, or ends at it or in front of it. -/
  outside : ∀ s ∈ sectionSpans t, offset ≤ s.start ∨ s.stop ≤ offset

/-- Whether the masked document has a text in a span with clear ends. -/
structure Covers (t : Text) (s : Span) (w : Text) : Prop where
  /-- The text in the span. -/
  text : Text.slice? (mask t) s = some w
  start : IsClear t s.start
  stop : IsClear t s.stop

/-- Whether spans follow one another without overlapping, and none is empty. -/
def InOrder (spans : List Span) : Prop :=
  (∀ s ∈ spans, s.start < s.stop) ∧ spans.Pairwise fun s s' => s.stop ≤ s'.start

section Masked

variable {t a b w : Text} {c d : Char}

/-- An offset next to a character that no section leaves in the masked text is clear. -/
theorem isClear_of_mask (h : mask t = a ++ b) (hnext : a.getLast? = some c ∨ b.head? = some c)
    (hc : c ≠ ' ' ∧ c ≠ '\n') : IsClear t (Text.size a) := by
  rcases hnext with hlast | hhead
  · obtain ⟨front, rfl⟩ := List.getLast?_eq_some_iff.mp hlast
    have hsplit : mask t = front ++ ([c] ++ b) := by
      rw [h, List.append_assoc]
    obtain ⟨u, v, ht, hu⟩ := exists_of_mask hsplit hc.1 hc.2
    have hstands := standsOutside_of_mask hsplit (List.cons_ne_nil c []) (by simpa using hc)
    have hplace := Text.isBoundary_size_append (u ++ [c]) v
    rw [List.append_assoc, List.singleton_append, ← ht, Text.size_append, hu] at hplace
    rw [Text.size_append]
    constructor
    · exact hplace
    · intro s hs
      have := hstands.outside s hs
      omega
  · obtain ⟨rest, rfl⟩ := List.head?_eq_some_iff.mp hhead
    obtain ⟨u, v, ht, hu⟩ := exists_of_mask h hc.1 hc.2
    have hstands := standsOutside_of_mask (w := [c]) (b := rest) h (List.cons_ne_nil c [])
      (by simpa using hc)
    constructor
    · rw [← hu, ht]
      exact Text.isBoundary_size_append _ _
    · intro s hs
      have := hstands.outside s hs
      omega

/-- A stretch of the masked text with such a character at each end covers its span. -/
theorem covers_of_mask (h : mask t = a ++ (w ++ b))
    (hfirst : a.getLast? = some c ∨ (w ++ b).head? = some c) (hc : c ≠ ' ' ∧ c ≠ '\n')
    (hlast : (a ++ w).getLast? = some d) (hd : d ≠ ' ' ∧ d ≠ '\n') :
    Covers t ⟨Text.size a, Text.size a + Text.size w⟩ w := by
  refine ⟨?_, isClear_of_mask h hfirst hc, ?_⟩
  · rw [h]
    exact Text.slice?_append a w b
  · have hstop := isClear_of_mask (a := a ++ w) (b := b) (by rw [h, List.append_assoc])
      (.inl hlast) hd
    rwa [Text.size_append] at hstop

/-- A run without white space in the masked text covers its span. -/
theorem covers_of_run (h : mask t = a ++ (w ++ b)) (hne : w ≠ [])
    (hw : ∀ c ∈ w, c ≠ ' ' ∧ c ≠ '\n') :
    Covers t ⟨Text.size a, Text.size a + Text.size w⟩ w := by
  refine covers_of_mask h (.inr ?_) (hw _ (List.head_mem hne)) ?_ (hw _ (List.getLast_mem hne))
  · rw [List.head?_append_of_ne_nil _ hne, List.head?_eq_some_head hne]
  · rw [List.getLast?_append_of_ne_nil _ hne, List.getLast?_eq_some_getLast hne]

end Masked

section Tags

variable {t : Text} {tag : TagToken}

/-- A scanned tag is read off what its span covers. -/
theorem exists_covers_of_mem_tags (h : tag ∈ (scan t).tags) : ∃ text : TagText,
    Covers t tag.span text.toText ∧
      tag = TagToken.ofText (LineIndex.ofText t) (tag.span.start, text) := by
  obtain ⟨a, b, text, hmask, hread, rfl⟩ := exists_of_mem_tags h
  obtain ⟨rest, hrest⟩ := TagText.exists_eq_of_read? hread
  rw [hrest] at hmask
  refine ⟨text, covers_of_mask hmask (c := '<') (d := '>') (.inr rfl) (by decide) ?_ (by decide),
    rfl⟩
  rw [TagText.toText, ← List.cons_append, ← List.append_assoc, List.getLast?_concat]

/-- The spans of the scanned tags are in order. -/
theorem inOrder_tags (t : Text) : InOrder ((scan t).tags.map (·.span)) := by
  constructor
  · intro s hs
    obtain ⟨tag, htag, rfl⟩ := List.mem_map.mp hs
    obtain ⟨a, b, text, -, -, rfl⟩ := exists_of_mem_tags htag
    have hone : '<'.utf8Size = 1 := rfl
    simp only [TagToken.ofText, TagText.size, TagText.toText, Text.size_cons, hone]
    omega
  · rw [List.pairwise_map]
    refine List.pairwise_map.mpr ((TagText.pairwise_all 0 (mask t)).imp_of_mem ?_)
    intro x y hx hy hlt
    rcases TagText.apart_of_mem_all hx hy with hbefore | ⟨hsame, -⟩ | hafter
    · omega
    · omega
    · exact hafter

end Tags

namespace EntityText

/-- The characters of the reference. -/
def toText (e : EntityText) : Text := e.text ++ if e.semicolon then [';'] else []

theorem size_toText (e : EntityText) : Text.size e.toText = e.size := by
  have hone : ';'.utf8Size = 1 := rfl
  unfold toText size
  cases e.semicolon <;> simp [hone]

/-- A reference begins with its ampersand, and nothing else of it is an ampersand or white space. -/
theorem exists_toText_eq (b : Text) : ∃ w rest, (read b).toText = '&' :: w ∧ b = w ++ rest ∧
    ∀ c ∈ w, c ≠ '&' ∧ c ≠ ' ' ∧ c ≠ '\n' := by
  have hname : ∀ c ∈ b.takeWhile isEntityNameChar, c ≠ '&' ∧ c ≠ ' ' ∧ c ≠ '\n' := fun c hc =>
    have hchar := List.mem_takeWhile_imp hc
    ⟨ne_of_class hchar (by decide), ne_of_class hchar (by decide), ne_of_class hchar (by decide)⟩
  have hsplit := List.takeWhile_append_dropWhile (p := isEntityNameChar) (l := b)
  cases hsemicolon : Text.startsWith (b.dropWhile isEntityNameChar) [';'] with
  | false =>
      refine ⟨b.takeWhile isEntityNameChar, b.dropWhile isEntityNameChar, ?_, hsplit.symm, hname⟩
      simp [toText, read, text, hsemicolon]
  | true =>
      obtain ⟨rest, hrest⟩ := Option.isSome_iff_exists.mp hsemicolon
      rw [Text.afterPrefix?_eq_some_iff] at hrest
      refine ⟨b.takeWhile isEntityNameChar ++ [';'], rest, ?_, ?_, ?_⟩
      · simp [toText, read, text, hsemicolon]
      · rw [List.append_assoc, ← hrest, hsplit]
      · exact List.forall_mem_append.mpr ⟨hname, by simp⟩

/-- References of a text do not overlap. -/
theorem pairwise_all (offset : Nat) (t : Text) :
    (all offset t).Pairwise fun x y => x.1 + x.2.size ≤ y.1 := by
  induction t generalizing offset with
  | nil => exact .nil
  | cons c r ih =>
      rw [all]
      split
      next hc =>
        refine List.pairwise_cons.mpr ⟨fun y hy => ?_, ih _⟩
        obtain ⟨a, b, hr, hplace, -⟩ := exists_of_mem_all hy
        obtain ⟨w, rest, htext, hrest, hw⟩ := exists_toText_eq r
        obtain ⟨m, rfl, -⟩ := exists_eq_append_of_not_mem (hr.symm.trans hrest)
          fun hmem => (hw _ hmem).1 rfl
        rw [hplace, hc, ← size_toText, htext, Text.size_cons, Text.size_append]
        omega
      next => exact ih _

end EntityText

section Entities

variable {t : Text} {e : EntityToken}

/-- A scanned reference is read off what its span covers. -/
theorem exists_covers_of_mem_entities (h : e ∈ (scan t).entities) : ∃ text : EntityText,
    Covers t e.span text.toText ∧
      e = EntityToken.ofText (LineIndex.ofText t) (e.span.start, text) := by
  obtain ⟨a, b, hmask, rfl⟩ := exists_of_mem_entities h
  obtain ⟨w, rest, htext, rfl, hw⟩ := EntityText.exists_toText_eq b
  have hcovers := covers_of_run (w := '&' :: w) hmask (List.cons_ne_nil '&' w)
    (List.forall_mem_cons.mpr ⟨by decide, fun c hc => (hw c hc).2⟩)
  rw [← htext, EntityText.size_toText] at hcovers
  exact ⟨_, hcovers, rfl⟩

/-- The spans of the scanned references are in order. -/
theorem inOrder_entities (t : Text) : InOrder ((scan t).entities.map (·.span)) := by
  constructor
  · intro s hs
    obtain ⟨e, he, rfl⟩ := List.mem_map.mp hs
    obtain ⟨a, b, -, rfl⟩ := exists_of_mem_entities he
    have hone : '&'.utf8Size = 1 := rfl
    simp only [EntityToken.ofText, EntityText.size, EntityText.text, Text.size_cons, hone]
    omega
  · rw [List.pairwise_map]
    exact List.pairwise_map.mpr (EntityText.pairwise_all 0 (mask t))

end Entities

section Values

/-- A value does not end in white space. -/
theorem ValueText.all_getLast?_raw (t : Text) :
    (read t).raw.getLast?.all (fun c => !isWhiteSpace c) = true := by
  have hplain : ∀ w : Text, ∀ c ∈ w.takeWhile fun c => !isWhiteSpace c,
      (!isWhiteSpace c) = true := fun w c hc =>
    List.mem_takeWhile_imp (p := fun c => !isWhiteSpace c) hc
  unfold read
  dsimp only
  split
  next => rfl
  next q inner hwritten =>
    split
    next hquote =>
      have hq : (!isWhiteSpace q) = true := by
        have hor : q = '"' ∨ q = '\'' := by
          simpa using hquote
        rcases hor with rfl | rfl <;> decide
      split
      next =>
        dsimp only [afterRun]
        split
        next =>
          rw [← List.append_assoc, List.getLast?_concat]
          decide
        next =>
          refine all_getLast?_of_forall (List.forall_mem_append.mpr ⟨fun c hc => ?_, hplain _⟩)
          rwa [beq_iff_eq.mp (List.mem_takeWhile_imp (p := fun c => c == q) hc)]
      next =>
        split
        next =>
          rw [← List.cons_append, List.getLast?_concat]
          exact hq
        next =>
          rw [trimEnd, List.getLast?_reverse]
          exact all_head?_dropWhile isWhiteSpace _
    next =>
      split
      next => exact all_getLast?_of_forall (hplain _)
      next => rfl

variable {w : Text} {a : AttributeText}

/-- The value of an attribute has the `=` in front of it, or begins with a quote. -/
theorem AttributeText.exists_next_of_read? (h : read? w = some a) : ∃ c,
    (a.beforeValue.getLast? = some c ∨ a.written.raw.head? = some c) ∧ c ≠ ' ' ∧ c ≠ '\n' := by
  obtain ⟨rest, -, hvalue, -⟩ := exists_toText_append h
  have hquote := (ValueText.gap_of_read (a.written.gap ++ (a.written.raw ++ rest))).2
  rw [← hvalue] at hquote
  by_cases hgap : a.written.gap = []
  · exact ⟨'=', .inl (by rw [beforeValue, hgap, List.append_nil, List.getLast?_concat]),
      by decide⟩
  · have hhead := hquote hgap
    rw [Option.any_eq_true] at hhead
    obtain ⟨c, hraw, hc⟩ := hhead
    rw [Bool.or_eq_true, beq_iff_eq, beq_iff_eq] at hc
    exact ⟨c, .inr hraw, by rcases hc with rfl | rfl <;> decide⟩

/-- An attribute does not end in white space. -/
theorem AttributeText.exists_getLast?_of_read? (h : read? w = some a) : ∃ d,
    a.toText.getLast? = some d ∧ d ≠ ' ' ∧ d ≠ '\n' := by
  obtain ⟨rest, -, hvalue, -⟩ := exists_toText_append h
  have hraw := ValueText.all_getLast?_raw (a.written.gap ++ (a.written.raw ++ rest))
  rw [← hvalue] at hraw
  rw [toText, List.getLast?_append]
  cases hlast : a.written.raw.getLast? with
  | none =>
      obtain ⟨c, hnext, hc⟩ := exists_next_of_read? h
      rw [List.getLast?_eq_none_iff.mp hlast] at hnext
      exact ⟨c, hnext.resolve_right (by simp), hc⟩
  | some d =>
      rw [hlast, Option.all_some] at hraw
      exact ⟨d, rfl, ne_of_class (p := fun c => !isWhiteSpace c) hraw (by decide),
        ne_of_class (p := fun c => !isWhiteSpace c) hraw (by decide)⟩

end Values

/-- Where the name of an attribute stands, by its position. -/
def AttributeToken.nameSpan? (index : LineIndex) (a : AttributeToken) : Option Span :=
  (index.offset? a.position).map fun offset => ⟨offset, offset + Text.size a.name⟩

/-- Whether an attribute stands in a tag, its name at a place. -/
structure AttributeToken.StandsIn (t : Text) (tag : TagToken) (a : AttributeToken) (place : Span) :
    Prop where
  /-- The position of the attribute leads to its name. -/
  nameSpan : a.nameSpan? (LineIndex.ofText t) = some place
  /-- The position is that of the start of the name. -/
  position : a.position = (LineIndex.ofText t).position place.start
  /-- The masked text has the name at its place. -/
  name : Covers t place a.name
  /-- The masked text has the value as it is written in the span of the token. -/
  value : Covers t a.span a.raw
  /-- The value comes behind the name, and both are inside of the tag. -/
  within : tag.span.start < place.start ∧ place.stop < a.span.start ∧ a.span.stop < tag.span.stop

section Attributes

variable {t : Text} {tag : TagToken} {a : AttributeToken} {o : Nat} {written : AttributeText}

/-- An attribute stands where it was found. -/
theorem FoundAt.standsIn (h : FoundAt t tag a o written) :
    a.StandsIn t tag ⟨o, o + Text.size written.name⟩ := by
  have hinside := h.inside
  obtain ⟨front, q, later, hmask, rfl, hread⟩ := h.exists_mask
  obtain rfl := h.token_eq
  obtain ⟨rest, rfl, -⟩ := AttributeText.exists_toText_append hread
  obtain ⟨c, hnext, hc⟩ := AttributeText.exists_next_of_read? hread
  obtain ⟨d, hlast, hd⟩ := AttributeText.exists_getLast?_of_read? hread
  have hname := AttributeText.name_of_read? hread
  have hcovers : Covers t ⟨Text.size front, Text.size front + Text.size written.name⟩
      written.name := by
    refine covers_of_run (b := written.space ++ ['='] ++ written.written.gap ++
      written.written.raw ++ rest ++ later) ?_ (AttributeText.name_ne_nil_of_read? hread)
      fun c hc => ⟨ne_of_class (hname c hc) (by decide), ne_of_class (hname c hc) (by decide)⟩
    rw [hmask, AttributeText.toText, AttributeText.beforeValue]
    simp
  have hvalue : Covers t ⟨Text.size (front ++ written.beforeValue),
      Text.size (front ++ written.beforeValue) + Text.size written.written.raw⟩
      written.written.raw := by
    refine covers_of_mask (b := rest ++ later) (c := c) (d := d) ?_ ?_ hc ?_ hd
    · rw [hmask, AttributeText.toText]
      simp
    · refine hnext.imp (fun hc => ?_) fun hc => ?_
      · rw [List.getLast?_append, hc, Option.some_or]
      · rw [List.head?_append, hc, Option.some_or]
    · rw [List.append_assoc, ← AttributeText.toText, List.getLast?_append, hlast, Option.some_or]
  have hoffset := LineIndex.offset?_position (Text.le_size_of_isBoundary hcovers.start.place)
  constructor
  · simp only [AttributeToken.nameSpan?, AttributeToken.ofText, hoffset, Option.map_some]
  · rfl
  · exact hcovers
  · rwa [Text.size_append] at hvalue
  · have hone : '='.utf8Size = 1 := rfl
    simp only [AttributeText.toText, AttributeText.beforeValue, Text.size_append, Text.size_cons,
      Text.size_nil, hone] at hinside
    simp only [AttributeToken.ofText, AttributeText.beforeValue, Text.size_append, Text.size_cons,
      Text.size_nil, hone]
    omega

/-- The attributes of a scanned tag are in order, each name behind the value in front of it. -/
theorem pairwise_attributes (h : tag ∈ (scan t).tags) : tag.attributes.Pairwise fun a b =>
    ∃ name, b.nameSpan? (LineIndex.ofText t) = some name ∧ a.span.stop < name.start := by
  obtain ⟨⟨place, text⟩, hmem, rfl⟩ := List.mem_map.mp h
  simp only [TagToken.ofText]
  split
  next => exact .nil
  next hkind =>
    refine List.pairwise_map.mpr ((AttributeText.pairwise_all _ 0 text.body).imp_of_mem ?_)
    intro x y _ hy hlt
    have hfound : FoundAt t (TagToken.ofText (LineIndex.ofText t) (place, text))
        (AttributeToken.ofText (LineIndex.ofText t) y) y.1 y.2 :=
      ⟨place, text, hmem, rfl, TagText.leadingSlash_eq_false hkind, hy, rfl⟩
    refine ⟨_, hfound.standsIn.nameSpan, ?_⟩
    simpa [AttributeToken.ofText, AttributeText.toText, Nat.add_assoc] using hlt

end Attributes

/-- The spans of the tags of a document are in order, and so are those of its references. Each tag
and each reference is read off what its span covers and has the position of its start. The
attributes of a tag stand in the tag, each name behind the value in front of it. -/
theorem scan_spans (t : Text) :
    InOrder ((scan t).tags.map (·.span)) ∧ InOrder ((scan t).entities.map (·.span)) ∧
    (∀ tag ∈ (scan t).tags,
      (∃ text : TagText, Covers t tag.span text.toText ∧
        tag = TagToken.ofText (LineIndex.ofText t) (tag.span.start, text)) ∧
      tag.position = (LineIndex.ofText t).position tag.span.start ∧
      (∀ a ∈ tag.attributes, ∃ name, a.StandsIn t tag name) ∧
      tag.attributes.Pairwise fun a b =>
        ∃ name, b.nameSpan? (LineIndex.ofText t) = some name ∧ a.span.stop < name.start) ∧
    ∀ e ∈ (scan t).entities,
      (∃ text : EntityText, Covers t e.span text.toText ∧
        e = EntityToken.ofText (LineIndex.ofText t) (e.span.start, text)) ∧
      e.position = (LineIndex.ofText t).position e.span.start := by
  refine ⟨inOrder_tags t, inOrder_entities t, fun tag htag => ?_, fun e he => ?_⟩
  · obtain ⟨text, hcovers, htoken⟩ := exists_covers_of_mem_tags htag
    refine ⟨⟨text, hcovers, htoken⟩, congrArg TagToken.position htoken, fun a ha => ?_,
      pairwise_attributes htag⟩
    obtain ⟨o, written, hfound⟩ := exists_foundAt htag ha
    exact ⟨_, hfound.standsIn⟩
  · obtain ⟨text, hcovers, htoken⟩ := exists_covers_of_mem_entities he
    exact ⟨⟨text, hcovers, htoken⟩, congrArg EntityToken.position htoken⟩

end MarkupRepair
