import MarkupRepair.Proofs.Markup.AtStart
import MarkupRepair.Proofs.Repair.Expansion

/-!
# The fix for an issue edits the token of the issue

The scan reads tags and attributes from the masked text, and a fix reads them again from the text.
In a tag without comments and CDATA sections both read the same, so the fix for an issue finds at
the place of the issue what the issue is about, and changes nothing else. Only whether a value comes
after a run of quotes is decided in two ways: for a fix none does when white space or what looks
like the end of a tag comes next, and for the scan all of that can be the value.
-/

namespace MarkupRepair

/-- Whether a position is that of a place in a tag. -/
def TagToken.Encloses (t : Text) (p : Position) (tag : TagToken) : Prop :=
  ∃ offset < tag.span.stop, tag.span.start ≤ offset ∧ (LineIndex.ofText t).position offset = p

instance (t : Text) (p : Position) : DecidablePred (TagToken.Encloses t p) := fun tag =>
  inferInstanceAs (Decidable (∃ offset < tag.span.stop,
    tag.span.start ≤ offset ∧ (LineIndex.ofText t).position offset = p))

/-- Whether a text is another one after a fix with a place has edited its own token there, and
nothing else. A run of quotes becomes one, or two when the value after it is taken for none. -/
def Fix.EditsToken (isNone : Text → Bool) (t next : Text) : Fix → Prop
  | .quoteAttribute p name value => ∃ tag ∈ (scan t).tags, ∃ a ∈ tag.attributes,
      a.position = p ∧ a.name = name ∧ a.raw = value ∧ next = Text.splice t a.span (requote a.raw)
  | .collapseQuotes p name quotes => ∃ tag ∈ (scan t).tags, ∃ a ∈ tag.attributes,
      a.position = p ∧ a.name = name ∧ a.quoting = .corrupted quotes ∧
        next = Text.splice t ⟨a.span.start, a.span.start + quotes⟩
          (if isNone a.value then ['"', '"'] else ['"'])
  | .terminateEntity p entity => ∃ e ∈ (scan t).entities,
      e.position = p ∧ e.text = entity ∧ e.terminated = false ∧
        next = if e.isBare then Text.splice t ⟨e.span.start, e.nameEnd⟩ "&amp;".toList
          else Text.splice t ⟨e.nameEnd, e.nameEnd⟩ [';']
  | .expandSelfClosing p name => ∃ tag ∈ (scan t).tags,
      tag.position = p ∧ tag.name = name ∧ tag.kind = .selfClosing ∧ ∃ written : TagText,
        tag = .ofText (LineIndex.ofText t) (tag.span.start, written) ∧
          Text.slice t tag.span = written.toText ∧ next = Text.splice t tag.span ('<' ::
            (written.name ++ trimEnd written.body ++ ['>', '<', '/'] ++ written.name ++ ['>']))
  | _ => False

/-- The value after a run of quotes goes on as long as a class of characters does, which slashes and
closing brackets belong to. -/
theorem ValueText.exists_afterRun_eq_takeWhile (rest : Text) : ∃ p : Char → Bool,
    (afterRun rest).1 = rest.takeWhile p ∧ p '/' = true ∧ p '>' = true ∧
      ∀ c, p c = false → c = '"' ∨ isWhiteSpace c = true := by
  unfold afterRun
  split
  · exact ⟨_, rfl, by decide, by decide, fun c hc => Or.inl (by simpa using hc)⟩
  · exact ⟨_, rfl, by decide, by decide, fun c hc => Or.inr (by simpa using hc)⟩

namespace Fix

variable {t : Text} {fix : Fix}

/-- A fix that recognises a stretch at its place edits a part of the stretch. -/
theorem apply_eq_splice {u front x y z : Text} (ht : t = u ++ (front ++ x ++ z))
    (hposition : fix.position? = some (Text.endPosition u))
    (hedit : fix.editAt u.getLast? (front ++ x ++ z) = some (front ++ y ++ z)) :
    fix.apply t = some (Text.splice t ⟨Text.size u + Text.size front,
      Text.size u + Text.size front + Text.size x⟩ y) := by
  have hsplice := Text.splice_append (u ++ front) x z y
  have hparts : u ++ front ++ (x ++ z) = u ++ (front ++ x ++ z) := by
    simp
  rw [hparts, ← ht, Text.size_append] at hsplice
  apply ChangesInPlace.apply_eq
  exact ⟨u, _, _, ht, by rw [hsplice]; simp, hposition, hedit⟩

/-- No value follows when white space or a closing bracket comes next. -/
theorem noValue_cons_of_ne {c : Char} (hc : c ≠ '/') (r : Text) :
    noValue (c :: r) = (isWhiteSpace c || c == '>') := by
  unfold noValue
  split
  next h => cases h
  next h => exact absurd (List.cons.inj h).1 hc
  next h =>
    obtain ⟨rfl, rfl⟩ := List.cons.inj h
    rfl

/-- Whether the value after a run of quotes is taken for none shows in the value. -/
theorem noValue_append {rest e z : Text} (hquote : (rest ++ e).head? ≠ some '"')
    (hend : e = '/' :: '>' :: z ∨ e = '>' :: z ∧ rest.getLast? ≠ some '/') :
    noValue (rest ++ e) = noValue (ValueText.afterRun rest).1 := by
  obtain ⟨p, hvalue, hslashed, hclosed, hstops⟩ := ValueText.exists_afterRun_eq_takeWhile rest
  rw [hvalue]
  cases rest with
  | nil =>
      rcases hend with rfl | ⟨rfl, -⟩
      · rfl
      · rfl
  | cons c rest =>
      have hc : c ≠ '"' := by
        simpa using hquote
      by_cases hslash : c = '/'
      · subst hslash
        have hnext : ∀ r : Text, noValue ('/' :: r) = (r.head? == some '>') := fun r => rfl
        rw [List.takeWhile_cons_of_pos hslashed, List.cons_append, hnext, hnext]
        cases rest with
        | nil =>
            rcases hend with rfl | ⟨-, hlast⟩
            · rfl
            · exact absurd rfl hlast
        | cons d rest =>
            by_cases hpd : p d = true
            · rw [List.takeWhile_cons_of_pos hpd]
              rfl
            · rw [List.takeWhile_cons_of_neg hpd]
              apply beq_eq_false_iff_ne.mpr
              intro hclosing
              apply hpd
              rw [Option.some.inj hclosing, hclosed]
      · rw [List.cons_append, noValue_cons_of_ne hslash]
        by_cases hpc : p c = true
        · rw [List.takeWhile_cons_of_pos hpc, noValue_cons_of_ne hslash]
        · rw [List.takeWhile_cons_of_neg hpc]
          have hblank := (hstops c (Bool.eq_false_iff.mpr hpc)).resolve_left hc
          rw [hblank]
          rfl

/-- A fix for the value of an attribute edits the value of that attribute. -/
theorem exists_editsToken_quoteAttribute {tag : TagToken} {a : AttributeToken}
    (htag : tag ∈ (scan t).tags) (ha : a ∈ tag.attributes)
    (hsame : Text.slice t tag.span = Text.slice (mask t) tag.span)
    (hquoting : a.quoting = .unquoted ∨ a.quoting = .unterminated) :
    ∃ next, (quoteAttribute a.position a.name a.raw).apply t = some next ∧
      EditsToken noValue t next (quoteAttribute a.position a.name a.raw) := by
  obtain ⟨written, u, w, e, hsite⟩ := exists_attributeSite htag hsame ha
  obtain ⟨rest, hw, hends, -⟩ := hsite.exists_rest hquoting
  have ht : t = u ++ (written.beforeValue ++ a.raw ++ (rest ++ e)) := by
    rw [hsite.text_of_eq hw]
    simp
  have happly := apply_eq_splice ht (by rw [position?, hsite.position_eq])
    (hsite.editAt_quoteAttribute hends)
  rw [← hsite.token.2.2.2] at happly
  exact ⟨_, happly, tag, htag, a, ha, rfl, rfl, rfl, rfl⟩

/-- A fix for a run of quotes edits the run of that attribute. -/
theorem exists_editsToken_collapseQuotes {tag : TagToken} {a : AttributeToken} {quotes : Nat}
    (htag : tag ∈ (scan t).tags) (ha : a ∈ tag.attributes)
    (hsame : Text.slice t tag.span = Text.slice (mask t) tag.span)
    (hquoting : a.quoting = .corrupted quotes) :
    ∃ next, (collapseQuotes a.position a.name quotes).apply t = some next ∧
      EditsToken noValue t next (collapseQuotes a.position a.name quotes) := by
  obtain ⟨written, u, w, e, hsite⟩ := exists_attributeSite htag hsame ha
  obtain ⟨run, rest, hw, rfl, hne, hrun, hquote, -, hvalue⟩ := hsite.exists_run hquoting
  have ht : t = u ++ (written.beforeValue ++ run ++ (rest ++ e)) := by
    rw [hsite.text_of_eq hw]
    simp
  have hend : ∃ z, e = '/' :: '>' :: z ∨ e = '>' :: z ∧ rest.getLast? ≠ some '/' := by
    obtain ⟨z, hslash | ⟨hclosing, hlast⟩⟩ := hsite.tagEnd
    · exact ⟨z, Or.inl hslash⟩
    · refine ⟨z, Or.inr ⟨hclosing, fun hrest => hlast ?_⟩⟩
      obtain ⟨init, rfl⟩ := List.getLast?_eq_some_iff.mp hrest
      rw [hw, ← List.append_assoc, ← List.append_assoc, List.getLast?_concat]
  obtain ⟨z, hend⟩ := hend
  have hsize : Text.size run = run.length := Text.size_of_forall_eq rfl hrun
  have happly := apply_eq_splice ht (by rw [position?, hsite.position_eq])
    (hsite.editAt_collapseQuotes hrun hne hquote)
  have hstart : a.span.start = Text.size u + Text.size written.beforeValue := by
    rw [hsite.token.2.2.2]
  rw [noValue_append hquote hend, ← hvalue, hsize, ← hstart] at happly
  exact ⟨_, happly, tag, htag, a, ha, rfl, rfl, hquoting, rfl⟩

/-- A fix for a reference edits that reference. -/
theorem exists_editsToken_terminateEntity {e : EntityToken} (he : e ∈ (scan t).entities)
    (hopen : e.terminated = false) :
    ∃ next, (terminateEntity e.position e.text).apply t = some next ∧
      EditsToken noValue t next (terminateEntity e.position e.text) := by
  obtain ⟨u, name, z, hsite⟩ := exists_referenceSite he hopen
  have hposition : (terminateEntity e.position e.text).position? = some (Text.endPosition u) := by
    rw [position?, hsite.position]
  have hedit : (terminateEntity e.position e.text).editAt u.getLast? ('&' :: (name ++ z)) =
      some ('&' :: (name ++ ((if name = [] then "amp;".toList else [';']) ++ z))) := by
    rw [hsite.written]
    exact terminateAt_append hsite.stop hsite.semicolon
  have hstart : e.span.start = Text.size u := by
    have hnameEnd := hsite.nameEnd
    rw [EntityToken.nameEnd, hsite.written] at hnameEnd
    omega
  have hbare : e.isBare = decide (name = []) := by
    rw [EntityToken.isBare, hsite.written]
    cases name <;> rfl
  refine ⟨if e.isBare then Text.splice t ⟨e.span.start, e.nameEnd⟩ "&amp;".toList
    else Text.splice t ⟨e.nameEnd, e.nameEnd⟩ [';'], ?_, e, he, rfl, rfl, hopen, rfl⟩
  rw [hbare, hstart, hsite.nameEnd]
  cases name with
  | nil =>
      have ht : t = u ++ ([] ++ ['&'] ++ z) := hsite.text
      exact apply_eq_splice (y := "&amp;".toList) ht hposition hedit
  | cons c name =>
      have ht : t = u ++ ('&' :: c :: name ++ [] ++ z) := by
        rw [hsite.text]
        simp
      exact apply_eq_splice (y := [';']) ht hposition (by simpa using hedit)

/-- A fix for a self-closing tag edits that tag. -/
theorem exists_editsToken_expandSelfClosing {tag : TagToken} (htag : tag ∈ (scan t).tags)
    (hsame : Text.slice t tag.span = Text.slice (mask t) tag.span)
    (hkind : tag.kind = .selfClosing) :
    ∃ next, (expandSelfClosing tag.position tag.name).apply t = some next ∧
      EditsToken noValue t next (expandSelfClosing tag.position tag.name) := by
  obtain ⟨⟨place, written⟩, hfound, rfl⟩ := List.mem_map.mp htag
  obtain ⟨u, z, front, later, rfl, hsite⟩ := exists_tagSite hfound hsame
  have ht : t = u ++ ([] ++ written.toText ++ z) := hsite.text
  have hposition : (LineIndex.ofText t).position (Text.size u) = Text.endPosition u := by
    rw [ht, LineIndex.position_ofText_append]
  have hexpanded := expandAt_append hsite.atStart?_eq hkind
    (Text.toLowerAscii_toLowerAscii written.name).symm
  have happly : (expandSelfClosing (Text.endPosition u) (Text.toLowerAscii written.name)).apply t =
      _ := apply_eq_splice ht rfl hexpanded
  rw [← hposition] at happly
  refine ⟨_, happly, _, htag, rfl, rfl, hkind, written, rfl, ?_, rfl⟩
  rw [ht]
  exact Text.slice_append u written.toText z

end Fix

/-- A tag is that of its own place. -/
theorem TagToken.encloses_position {t : Text} {tag : TagToken} (htag : tag ∈ (scan t).tags) :
    tag.Encloses t tag.position := by
  obtain ⟨⟨place, written⟩, -, rfl⟩ := List.mem_map.mp htag
  refine ⟨place, ?_, Nat.le_refl _, rfl⟩
  have hpos : 0 < written.size := by
    have hbracket : '<'.utf8Size = 1 := rfl
    rw [TagText.size, TagText.toText, Text.size_cons, hbracket]
    omega
  simp only [ofText]
  omega

/-- A tag is that of the places of its attributes. -/
theorem TagToken.encloses_attribute {t : Text} {tag : TagToken} {a : AttributeToken}
    (htag : tag ∈ (scan t).tags) (ha : a ∈ tag.attributes) : tag.Encloses t a.position := by
  obtain ⟨offset, written, hfound⟩ := exists_foundAt htag ha
  obtain ⟨hstart, hstop⟩ := hfound.inside
  refine ⟨offset, by omega, Nat.le_of_lt hstart, ?_⟩
  rw [hfound.token_eq]
  rfl

/-- The fix for an issue with a place can be applied to the text of the issue when the tag around
the place, if there is one, has no comment and no CDATA section in it. It edits the token of the
issue and nothing else, and takes the value after a run of quotes for none if it begins with white
space, with a closing bracket or with a slash in front of one. -/
theorem exists_editsToken_of_mem_analyze (t : Text) (i : Issue) (fix : Fix) (p : Position)
    (hi : i ∈ analyze t) (hfix : i.fix? = some fix) (hplace : fix.position? = some p)
    (hplain : ∀ tag ∈ (scan t).tags, tag.Encloses t p →
      hiddenSections (Text.slice t tag.span) = []) :
    i.line = some p.line ∧ i.column = some p.column ∧
      ∃ next, fix.apply t = some next ∧ Fix.EditsToken Fix.noValue t next fix := by
  obtain ⟨hline, hcolumn⟩ := Issue.position_of_fix? hfix hplace
  refine ⟨hline, hcolumn, ?_⟩
  have hsame : ∀ tag ∈ (scan t).tags, tag.Encloses t p →
      Text.slice t tag.span = Text.slice (mask t) tag.span := by
    intro tag htag hencloses
    have hnone := hplain tag htag hencloses
    obtain ⟨⟨place, written⟩, hfound, rfl⟩ := List.mem_map.mp htag
    exact slice_eq_slice_mask hfound hnone
  have hbelongs := Fix.belongsTo_of_mem_analyze hi hfix
  cases fix with
  | quoteAttribute q name value =>
      obtain ⟨tag, htag, a, ha, rfl, rfl, rfl, hquoting⟩ := hbelongs
      obtain rfl := Option.some.inj hplace
      exact Fix.exists_editsToken_quoteAttribute htag ha
        (hsame tag htag (TagToken.encloses_attribute htag ha)) hquoting
  | collapseQuotes q name quotes =>
      obtain ⟨tag, htag, a, ha, rfl, rfl, hquoting⟩ := hbelongs
      obtain rfl := Option.some.inj hplace
      exact Fix.exists_editsToken_collapseQuotes htag ha
        (hsame tag htag (TagToken.encloses_attribute htag ha)) hquoting
  | terminateEntity q entity =>
      obtain ⟨e, he, rfl, rfl, hopen⟩ := hbelongs
      exact Fix.exists_editsToken_terminateEntity he hopen
  | expandSelfClosing q name =>
      obtain ⟨tag, htag, rfl, rfl, hkind, -⟩ := hbelongs
      obtain rfl := Option.some.inj hplace
      exact Fix.exists_editsToken_expandSelfClosing htag
        (hsame tag htag (TagToken.encloses_position htag)) hkind
  | _ => cases hplace

/-- The value after the run of quotes of an image, behind a comment. -/
theorem exists_editsToken_of_mem_analyze_image :
    let t := "<!-- > --><img alt=\"\"\"x y\"/>".toList
    let fix := Fix.collapseQuotes ⟨1, 16⟩ "alt".toList 3
    fix.apply t = some "<!-- > --><img alt=\"x y\"/>".toList ∧
      ∃ next, fix.apply t = some next ∧ Fix.EditsToken Fix.noValue t next fix := by
  intro t fix
  let i := classify false (.corruptedQuotes "alt".toList 3) (some ⟨1, 16⟩)
  have hi : i ∈ analyze t := mem_analyze_iff.mpr (by decide +kernel)
  have hplain : ∀ tag ∈ (scan t).tags, tag.Encloses t ⟨1, 16⟩ →
      hiddenSections (Text.slice t tag.span) = [] := by
    decide +kernel
  obtain ⟨-, -, hedits⟩ := exists_editsToken_of_mem_analyze t i fix _ hi rfl rfl hplain
  exact ⟨by decide +kernel, hedits⟩

/-- A document with a value that begins with a closing bracket after a run of quotes. -/
def bracketDocument : Text :=
  canonicalProlog ++ '\n' :: (canonicalDoctype ++
    "\n<html xmlns=\"http://www.w3.org/1999/xhtml\"><p a=\"\"\">x\"></p></html>".toList)

/-- The value of that attribute is not empty, and is taken for none all the same. -/
theorem not_editsToken_bracketDocument : ¬ ∀ (t : Text) (i : Issue) (fix : Fix) (p : Position),
    i ∈ analyze t → i.fix? = some fix → fix.position? = some p →
      (∀ tag ∈ (scan t).tags, tag.Encloses t p → hiddenSections (Text.slice t tag.span) = []) →
        ∃ next, fix.apply t = some next ∧ Fix.EditsToken List.isEmpty t next fix := by
  intro h
  let i := classify true (.corruptedQuotes "a".toList 3) (some ⟨3, 47⟩)
  have hi : i ∈ analyze bracketDocument := mem_analyze_iff.mpr (by decide +kernel)
  have hplain : ∀ tag ∈ (scan bracketDocument).tags, tag.Encloses bracketDocument ⟨3, 47⟩ →
      hiddenSections (Text.slice bracketDocument tag.span) = [] := by
    decide +kernel
  obtain ⟨next, happly, tag, htag, a, ha, hposition, -, -, hnext⟩ :=
    h bracketDocument i _ _ hi rfl rfl hplain
  have hother : ∀ tag ∈ (scan bracketDocument).tags, ∀ a ∈ tag.attributes,
      a.position = ⟨3, 47⟩ →
        (Fix.collapseQuotes ⟨3, 47⟩ "a".toList 3).apply bracketDocument ≠
          some (Text.splice bracketDocument ⟨a.span.start, a.span.start + 3⟩
            (if a.value.isEmpty then ['"', '"'] else ['"'])) := by
    decide +kernel
  rw [hnext] at happly
  exact hother tag htag a ha hposition happly

end MarkupRepair
