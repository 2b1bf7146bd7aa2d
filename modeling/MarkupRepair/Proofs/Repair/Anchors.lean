import MarkupRepair.Proofs.Repair.Anchored
import MarkupRepair.Proofs.Repair.Edits

/-!
# Fixes at their anchors

The fixes of a pass are applied from the end of the text to its start. What those before a fix have
made of the text after its place still begins as it did, and a tag that closes itself still does. So
every fix recognises what it is meant for, and what it makes of it stays inside the tag or completes
the reference.
-/

namespace MarkupRepair

/-- No character that completes a reference is a bracket or a quote. -/
theorem EntityToken.not_mark_of_mem_completion {e : EntityToken} {c : Char}
    (hc : c ∈ e.completion) :
    TagText.isEndMark c = false ∧ (c == '<') = false := by
  have hall : ∀ c ∈ "amp;".toList, TagText.isEndMark c = false ∧ (c == '<') = false := by
    simp [TagText.isEndMark]
  unfold completion at hc
  split at hc
  · exact hall c hc
  · rw [List.mem_singleton.mp hc]
    decide

/-- Whether a text is what fixes have made of the text from an offset of a scanned text on, so that
fixes before the offset still find what they are meant for. -/
structure Settled (s : Scan) (offset : Nat) (after changed : Text) : Prop where
  /-- The changes are inside tags that may be changed by now, and at references. -/
  confined : Confined (s.touched offset) s.entities offset after changed
  /-- The first character is the same. -/
  head : changed.head? = after.head?
  /-- What closes itself still closes itself, unless a reference ends in front of its closing
  bracket. -/
  closesItself : ∀ l, ClosesItself (l ++ after) →
    ('>' ∉ l → ∀ e ∈ s.entities, e.terminated = false →
      e.nameEnd ≠ offset + Text.size (after.takeWhile (· != '>'))) → ClosesItself (l ++ changed)

namespace Settled

variable {s : Scan} {offset : Nat} {after changed : Text}

theorem refl (s : Scan) (offset : Nat) (t : Text) : Settled s offset t t :=
  ⟨.refl offset t, rfl, fun _ h _ => h⟩

/-- What closes itself after a stretch that does not end it does so still. -/
theorem closesItself_append {m l : Text} (h : Settled s (offset + Text.size m) after changed)
    (hl : ClosesItself (l ++ (m ++ after)))
    (hends : '>' ∉ l → ∀ e ∈ s.entities, e.terminated = false →
      e.nameEnd ≠ offset + Text.size ((m ++ after).takeWhile (· != '>'))) :
    ClosesItself (l ++ (m ++ changed)) := by
  rw [← List.append_assoc] at hl ⊢
  refine h.closesItself (l ++ m) hl fun hfree e he hopen => ?_
  rw [List.mem_append, not_or] at hfree
  have hends := hends hfree.1 e he hopen
  rwa [takeWhile_bne_append hfree.2, Text.size_append, ← Nat.add_assoc] at hends

/-- Text that no fix changes may stand before the text. -/
theorem append (m : Text) (h : Settled s (offset + Text.size m) after changed) :
    Settled s offset (m ++ after) (m ++ changed) where
  confined := (Confined.refl offset m).append
    (h.confined.mono (s.touched_subset (Nat.le_add_right _ _)))
  head := by
    rw [List.head?_append, List.head?_append, h.head]
  closesItself _ hl hends := h.closesItself_append hl hends

/-- A stretch of a tag with a fault may be exchanged in front of the text. -/
theorem exchange {tag : TagToken} {x y : Text} (h : Settled s (offset + Text.size x) after changed)
    (htag : tag ∈ s.tags) (hfault : tag.hasFault = true) (hstart : tag.span.start < offset)
    (hstop : offset + Text.size x ≤ tag.span.stop) (hx : x ≠ []) (hhead : y.head? = x.head?)
    (hcount : y.count '>' = x.count '>')
    (hcloses : ∀ l, ClosesItself (l ++ (x ++ changed)) → ClosesItself (l ++ (y ++ changed))) :
    Settled s offset (x ++ after) (y ++ changed) where
  confined := by
    have htouched : tag ∈ s.touched offset := Scan.mem_touched_iff.mpr ⟨htag, Or.inl hfault⟩
    refine (Confined.of_inTag htouched hstart hstop hx (Nat.le_of_eq hcount.symm)).append ?_
    exact h.confined.mono (s.touched_subset (Nat.le_add_right _ _))
  head := by
    have hy : y ≠ [] := by
      rintro rfl
      exact hx (List.head?_eq_none_iff.mp hhead.symm)
    rw [List.head?_append_of_ne_nil _ hy, List.head?_append_of_ne_nil _ hx, hhead]
  closesItself l hl hends := hcloses l (h.closesItself_append hl hends)

/-- An open reference that ends in front of the text may be completed. -/
theorem complete {e : EntityToken} {m : Text} (h : Settled s (offset + Text.size m) after changed)
    (he : e ∈ s.entities) (hopen : e.terminated = false)
    (hend : e.nameEnd = offset + Text.size m) (hm : m ≠ []) (hopening : '<' ∉ m)
    (hclosing : '>' ∉ m) : Settled s offset (m ++ after) (m ++ (e.completion ++ changed)) where
  confined := by
    obtain ⟨init, c, rfl⟩ := (List.eq_nil_or_concat' m).resolve_left hm
    have hsize : offset + Text.size init + c.utf8Size = offset + Text.size (init ++ [c]) := by
      rw [Text.size_append, Text.size_cons, Text.size_nil, Nat.add_zero, Nat.add_assoc]
    have hrest := h.confined.mono (s.touched_subset (Nat.le_add_right _ _))
    rw [List.append_assoc, List.append_assoc, List.singleton_append, List.singleton_append]
    exact (Confined.refl _ init).append (.completed he hopen (hsize.trans hend.symm) (hsize ▸ hrest))
  head := by rw [List.head?_append_of_ne_nil _ hm, List.head?_append_of_ne_nil _ hm]
  closesItself l hl hends := by
    have hcloses := h.closesItself_append hl hends
    have hplain : '<' ∉ e.completion ∧ '>' ∉ e.completion :=
      ⟨fun hmem => absurd (EntityToken.not_mark_of_mem_completion hmem).2 (by decide),
        fun hmem => absurd (EntityToken.not_mark_of_mem_completion hmem).1 (by decide)⟩
    rw [← List.append_assoc, ← List.nil_append changed] at hcloses
    rw [← List.append_assoc]
    refine hcloses.exchange_plain (by simp) hplain.1 (by simp) hplain.2 fun hfree hhead => ?_
    rw [List.mem_append, not_or] at hfree
    obtain ⟨z, rfl⟩ : ∃ z, after = '>' :: z := by
      rw [h.head] at hhead
      exact List.head?_eq_some_iff.mp hhead
    refine absurd ?_ (hends hfree.1 e he hopen)
    rw [takeWhile_bne_append_cons hclosing, hend]

end Settled

namespace Fix

/-- Whether a position comes after the columns that a fix at another position claims. -/
def Precedes (fix : Fix) (q p : Position) : Prop :=
  q.line < p.line ∨ q.line = p.line ∧ q.column + max fix.reach 1 ≤ p.column

/-- Where a fix is meant to be applied in a scanned text, with the stretch that it reads there and
the text after it: the fix does its work there whatever other fixes have made of that text. -/
structure Anchor (fix : Fix) (t u x z : Text) : Prop where
  /-- The parts of the text. -/
  text : t = u ++ (x ++ z)
  /-- The place is the position of the fix. -/
  position : fix.position? = some (Text.endPosition u)
  /-- No fix is meant for a place in the stretch, unless the fix claims the columns there. -/
  clear : ∀ (other : Fix) (v w : Text), t = v ++ w → other.BelongsTo (scan t) →
    other.position? = some (Text.endPosition v) →
      fix.Precedes (Text.endPosition u) (Text.endPosition v) → u ++ x <+: v
  /-- The fix changes the stretch, or more of its tag. -/
  edit : ∀ changed, Settled (scan t) (Text.size u + Text.size x) z changed →
    ∃ next, fix.editAt u.getLast? (x ++ changed) = some next ∧
      Settled (scan t) (Text.size u) (x ++ z) next

variable {t : Text} {fix : Fix}

/-- A stretch of one line whose columns a fix claims ends where a position comes after it. -/
theorem prefix_of_precedes {u x z v w : Text} (ht : t = u ++ (x ++ z)) (ht' : t = v ++ w)
    (hline : '\n' ∉ x) (hcovered : Text.size x ≤ max fix.reach 1)
    (hprecedes : fix.Precedes (Text.endPosition u) (Text.endPosition v)) : u ++ x <+: v := by
  have hprefix : u ++ x <+: t := ⟨z, by rw [ht, List.append_assoc]⟩
  rcases List.prefix_or_prefix_of_prefix hprefix ⟨w, ht'.symm⟩ with hbefore | ⟨y, hy⟩
  · exact hbefore
  · rcases List.append_eq_append_iff.mp hy with ⟨a, rfl, rfl⟩ | ⟨b, rfl, rfl⟩
    · exfalso
      by_cases ha : '\n' ∈ a
      · have hlater := Text.line_lt_endPosition_append (a := v) ha
        rcases hprecedes with hlt | ⟨heq, -⟩
        · omega
        · omega
      · rw [Text.endPosition_append_of_not_mem ha] at hprecedes
        rcases hprecedes with hlt | ⟨-, hle⟩
        · exact Nat.lt_irrefl _ hlt
        · simp only at hle
          omega
    · have hb : '\n' ∉ b := fun hmem => hline (List.mem_append_left _ hmem)
      rw [Text.endPosition_append_of_not_mem hb] at hprecedes
      rw [Text.size_append] at hcovered
      rcases hprecedes with hlt | ⟨-, hle⟩
      · exact absurd hlt (Nat.lt_irrefl _)
      · simp only at hle
        obtain rfl : y = [] := Text.eq_nil_of_size_eq_zero (by omega)
        rw [List.append_nil]

/-- What stands at the place of a fix that belongs to a token: an open reference, a tag or an
attribute. -/
theorem exists_at_place (h : Anchored t) {v w : Text} (ht : t = v ++ w)
    (hfix : fix.BelongsTo (scan t)) (hposition : fix.position? = some (Text.endPosition v)) :
    (w.head? = some '&' ∧ ∃ e ∈ (scan t).entities, e.terminated = false ∧
      e.span.start = Text.size v ∧ e.position = Text.endPosition v) ∨ w.head? = some '<' ∨
      ∃ tag a written, FoundAt t tag a (Text.size v) written := by
  have hplace : ∀ {v' w' : Text}, t = v' ++ w' →
      (LineIndex.ofText t).position (Text.size v') = Text.endPosition v → v' = v ∧ w' = w := by
    intro v' w' ht' heq
    rw [ht', LineIndex.position_ofText_append] at heq
    obtain rfl := LineIndex.eq_of_endPosition_eq (ht'.symm.trans ht) heq
    exact ⟨rfl, List.append_cancel_left (ht'.symm.trans ht)⟩
  have hattribute : ∀ {p : Position}, p = Text.endPosition v → ∀ tag ∈ (scan t).tags,
      ∀ a ∈ tag.attributes, a.position = p →
        ∃ tag a written, FoundAt t tag a (Text.size v) written := by
    rintro p rfl tag htag a ha hp
    obtain ⟨written, v', _, _, hsite⟩ := h.exists_attributeSite htag ha
    rw [hsite.found.token_eq] at hp
    obtain ⟨rfl, -⟩ := hplace hsite.text hp
    exact ⟨tag, a, written, hsite.found⟩
  cases fix with
  | quoteAttribute p name value =>
      obtain ⟨tag, htag, a, ha, hp, -⟩ := hfix
      exact Or.inr (Or.inr (hattribute (Option.some.inj hposition) tag htag a ha hp))
  | collapseQuotes p name quotes =>
      obtain ⟨tag, htag, a, ha, hp, -⟩ := hfix
      exact Or.inr (Or.inr (hattribute (Option.some.inj hposition) tag htag a ha hp))
  | terminateEntity p entity =>
      obtain ⟨e, he, rfl, -, hopen⟩ := hfix
      have hmem := he
      obtain ⟨v', b, ht', rfl⟩ := exists_of_mem_entities_written he
      obtain ⟨rfl, rfl⟩ := hplace ht' (Option.some.inj hposition)
      exact Or.inl ⟨rfl, _, hmem, hopen, rfl, Option.some.inj hposition⟩
  | expandSelfClosing p name =>
      obtain ⟨tag, htag, rfl, -⟩ := hfix
      obtain ⟨⟨place, text⟩, hmem, rfl⟩ := List.mem_map.mp htag
      obtain ⟨v', z, _, _, rfl, hsite⟩ := h.exists_tagSite hmem
      obtain ⟨rfl, rfl⟩ := hplace hsite.text (Option.some.inj hposition)
      exact Or.inr (Or.inl rfl)
  | _ => cases hposition

end Fix

namespace AttributeSite

variable {t : Text} {tag : TagToken} {a : AttributeToken} {written : AttributeText} {u w e : Text}

/-- The place of an attribute. -/
theorem position_eq (h : AttributeSite t tag a written u w e) :
    a.position = Text.endPosition u := by
  have hposition : (LineIndex.ofText t).position (Text.size u) = Text.endPosition u := by
    rw [h.text, LineIndex.position_ofText_append]
  rw [h.found.token_eq, ← hposition]
  rfl

/-- The value of the token is the one that was read, in a tag with a fault if it has one. -/
theorem token (h : AttributeSite t tag a written u w e) : a.name = written.name ∧
    a.raw = written.written.raw ∧ a.quoting = written.written.quoting ∧
      a.span = ⟨Text.size u + Text.size written.beforeValue,
        Text.size u + Text.size written.beforeValue + Text.size a.raw⟩ := by
  rw [h.found.token_eq]
  exact ⟨rfl, rfl, rfl, rfl⟩

theorem isWhiteSpace_gap (h : AttributeSite t tag a written u w e) :
    ∀ c ∈ written.written.gap, isWhiteSpace c = true := by
  rw [h.value]
  exact (ValueText.gap_of_read w).1

/-- Nothing but the name, white space and the `=` comes before the value. -/
theorem not_mem_beforeValue (h : AttributeSite t tag a written u w e) {c : Char}
    (hname : isNameChar c = false) (hspace : isWhiteSpace c = false) (hequals : c ≠ '=') :
    c ∉ written.beforeValue := by
  simp [AttributeText.beforeValue, not_mem_of_class h.name hname, not_mem_of_class h.space hspace,
    not_mem_of_class h.isWhiteSpace_gap hspace, hequals]

/-- No slash comes right before the value. -/
theorem getLast?_beforeValue_ne_slash (h : AttributeSite t tag a written u w e) (l : Text) :
    (l ++ written.beforeValue).getLast? ≠ some '/' := by
  intro hslash
  have hsplit : l ++ written.beforeValue =
      l ++ (written.name ++ written.space) ++ '=' :: written.written.gap := by
    simp [AttributeText.beforeValue]
  rw [hsplit, List.getLast?_append_of_ne_nil _ (List.cons_ne_nil _ _)] at hslash
  rcases List.mem_cons.mp (List.mem_of_getLast? hslash) with heq | hmem
  · cases heq
  · exact not_mem_of_class h.isWhiteSpace_gap (by decide) hmem

/-- The parts of the text when the value is split. -/
theorem text_of_eq (h : AttributeSite t tag a written u w e) {r : Text}
    (hw : w = written.written.gap ++ r) : t = u ++ (written.beforeValue ++ (r ++ e)) := by
  rw [h.text, hw, AttributeText.beforeValue]
  simp

/-- What stands after a value without quotes, or with one only: a character at which a value may
end, and no closing bracket right after a slash. -/
theorem exists_rest (h : AttributeSite t tag a written u w e)
    (hquoting : a.quoting = .unquoted ∨ a.quoting = .unterminated) :
    ∃ rest, w = written.written.gap ++ (a.raw ++ rest) ∧ Fix.endsValue (rest ++ e) = true ∧
      ((rest ++ e).head? = some '>' → a.raw.getLast? ≠ some '/') := by
  have htoken := h.found.token_eq
  obtain ⟨rest, hw, hblank⟩ := ValueText.exists_read_append w
  rw [← h.value] at hw hblank
  rw [htoken] at hquoting ⊢
  simp only [AttributeToken.ofText] at hquoting ⊢
  have hblank := hblank hquoting
  refine ⟨rest, hw, ?_⟩
  cases rest with
  | nil =>
      obtain ⟨z, rfl | ⟨rfl, hlast⟩⟩ := h.tagEnd
      · exact ⟨rfl, fun h => by cases h⟩
      · refine ⟨rfl, fun _ hslash => hlast ?_⟩
        obtain ⟨init, hinit⟩ := List.getLast?_eq_some_iff.mp hslash
        rw [hw, List.append_nil, hinit, ← List.append_assoc, List.getLast?_concat]
  | cons c rest =>
      have hc : isWhiteSpace c = true := hblank
      refine ⟨by simp [Fix.endsValue, hc], fun h => ?_⟩
      obtain rfl := Option.some.inj h
      cases hc

/-- Quoting recognises an attribute behind which its value can end. -/
theorem editAt_quoteAttribute (h : AttributeSite t tag a written u w e) {changed : Text}
    (hends : Fix.endsValue changed = true) :
    (Fix.quoteAttribute a.position a.name a.raw).editAt u.getLast?
        (written.beforeValue ++ a.raw ++ changed) =
      some (written.beforeValue ++ Fix.requote a.raw ++ changed) := by
  obtain ⟨hname, hraw, -⟩ := h.token
  have hquote : written.written.gap ≠ [] →
      (a.raw.head?.any fun c => c == '"' || c == '\'') = true := by
    rw [hraw, h.value]
    exact (ValueText.gap_of_read w).2
  have hquoted : Fix.quoteAt written.name a.raw u.getLast? _ = _ :=
    Fix.quoteAt_append h.blank h.space h.isWhiteSpace_gap hquote hends
  simpa [Fix.editAt, hname, AttributeText.beforeValue] using hquoted

/-- The run of quotes of an attribute, and what stands behind it. -/
theorem exists_run (h : AttributeSite t tag a written u w e) {quotes : Nat}
    (hquoting : a.quoting = .corrupted quotes) :
    ∃ run rest, w = written.written.gap ++ (run ++ rest) ∧ run.length = quotes ∧ run ≠ [] ∧
      (∀ c ∈ run, c = '"') ∧ (rest ++ e).head? ≠ some '"' ∧ run <+: written.written.raw ∧
        a.value = (ValueText.afterRun rest).1 := by
  have hcorrupted : (ValueText.read w).quoting = .corrupted quotes := by
    rw [← h.value, ← h.token.2.2.1, hquoting]
  obtain ⟨run, rest, hw, hlength, hlong, hrun, hrest, hprefix, hvalue⟩ :=
    ValueText.exists_run_of_corrupted hcorrupted
  rw [← h.value] at hw hprefix hvalue
  refine ⟨run, rest, hw, hlength, ?_, hrun, ?_, hprefix, ?_⟩
  · rintro rfl
    rw [← hlength] at hlong
    cases hlong
  · cases rest with
    | nil =>
        obtain ⟨z, rfl | ⟨rfl, -⟩⟩ := h.tagEnd
        · simp
        · simp
    | cons c rest => exact hrest
  · rw [← hvalue, h.found.token_eq]
    rfl

/-- Collapsing recognises an attribute behind whose run of quotes no other one comes. -/
theorem editAt_collapseQuotes (h : AttributeSite t tag a written u w e) {run changed : Text}
    (hrun : ∀ c ∈ run, c = '"') (hne : run ≠ []) (hend : changed.head? ≠ some '"') :
    (Fix.collapseQuotes a.position a.name run.length).editAt u.getLast?
        (written.beforeValue ++ run ++ changed) =
      some (written.beforeValue ++ (if Fix.noValue changed then ['"', '"'] else ['"']) ++
        changed) := by
  have hcollapsed : Fix.collapseAt written.name run.length u.getLast? _ = _ :=
    Fix.collapseAt_append h.blank h.space h.isWhiteSpace_gap hrun hne hend
  simpa [Fix.editAt, h.token.1, AttributeText.beforeValue] using hcollapsed

/-- Quoting a value claims the columns of the open references in the value. -/
theorem not_precedes {m s : Text} {f : EntityToken} (hsite : AttributeSite t tag a written u w e)
    (h : Anchored t) (htag : tag ∈ (scan t).tags) (ha : a ∈ tag.attributes)
    (hquoting : a.quoting = .unquoted ∨ a.quoting = .unterminated)
    (hsplit : written.beforeValue ++ a.raw = m ++ '&' :: s) (hf : f ∈ (scan t).entities)
    (hopen : f.terminated = false) (hplace : f.span.start = Text.size u + Text.size m) :
    ¬(Fix.quoteAttribute a.position a.name a.raw).Precedes (Text.endPosition u) f.position := by
  obtain ⟨m', rfl, hm'⟩ : ∃ m', m = written.beforeValue ++ m' ∧ a.raw = m' ++ '&' :: s := by
    rcases List.append_eq_append_iff.mp hsplit with ⟨b, hm, hb⟩ | ⟨b, hb, hs⟩
    · exact ⟨b, hm, hb⟩
    · cases b with
      | nil => exact ⟨[], by simpa using hb.symm, by simpa using hs.symm⟩
      | cons c b =>
          obtain ⟨rfl, -⟩ := List.cons.inj hs
          have hmem : '&' ∈ written.beforeValue := by
            rw [hb]
            simp
          exact absurd hmem (hsite.not_mem_beforeValue (by decide) (by decide) (by decide))
  have hspan := hsite.token.2.2.2
  have hpos := '&'.utf8Size_pos
  have hsize : Text.size a.raw = Text.size m' + ('&'.utf8Size + Text.size s) := by
    rw [hm', Text.size_append, Text.size_cons]
  have hstart : a.span.start ≤ f.span.start := by
    rw [hspan, hplace, Text.size_append]
    simp only
    omega
  have hstop : f.span.start < a.span.stop := by
    rw [hspan, hplace, Text.size_append]
    simp only
    omega
  obtain ⟨hline, hcolumn⟩ := h.claimed tag htag a ha hquoting f hf hopen hstart hstop
  rw [hsite.position_eq] at hline hcolumn ⊢
  rintro (hlt | ⟨-, hle⟩)
  · omega
  · omega

/-- The next place after an attribute at which a fix may be applied comes after a stretch of the
attribute without brackets, unless it is that of an open reference in the stretch. -/
theorem prefix_of_precedes {fix other : Fix} {x z v y : Text}
    (hsite : AttributeSite t tag a written u w e) (h : Anchored t) (ht : t = u ++ (x ++ z))
    (hx : x <+: written.toText) (hopening : '<' ∉ x)
    (hreference : ∀ m s, x = m ++ '&' :: s → ∀ e ∈ (scan t).entities, e.terminated = false →
      e.span.start = Text.size u + Text.size m →
        ¬fix.Precedes (Text.endPosition u) e.position)
    (ht' : t = v ++ y) (hother : other.BelongsTo (scan t))
    (hposition : other.position? = some (Text.endPosition v))
    (hprecedes : fix.Precedes (Text.endPosition u) (Text.endPosition v)) : u ++ x <+: v := by
  obtain ⟨m, rfl⟩ : u <+: v := by
    have hprefix := Fix.prefix_of_precedes (x := []) ht ht' (by simp) (Nat.zero_le _) hprecedes
    rwa [List.append_nil] at hprefix
  have hne : m ≠ [] := by
    rintro rfl
    rw [List.append_nil] at hprecedes
    rcases hprecedes with hlt | ⟨-, hle⟩
    · exact Nat.lt_irrefl _ hlt
    · omega
  have hparts : x ++ z = m ++ y := by
    rw [ht, List.append_assoc] at ht'
    exact List.append_cancel_left ht'
  rcases List.append_eq_append_iff.mp hparts with ⟨b, rfl, -⟩ | ⟨b, rfl, rfl⟩
  · exact ⟨b, by simp⟩
  cases b with
  | nil => exact ⟨[], by simp⟩
  | cons c b =>
      exfalso
      rcases Fix.exists_at_place h ht' hother hposition with
        ⟨hc, e, he, hopen, hstart, hplace⟩ | hc | ⟨tag', a', written', hfound⟩
      · obtain rfl := Option.some.inj hc
        refine hreference m b rfl e he hopen (by rw [hstart, Text.size_append]) ?_
        rwa [hplace]
      · obtain rfl := Option.some.inj hc
        exact hopening (by simp)
      · rw [Text.size_append] at hfound
        have hpos : 0 < Text.size m := by
          rw [Nat.pos_iff_ne_zero]
          exact fun hzero => hne (Text.eq_nil_of_size_eq_zero hzero)
        have hapart := hsite.found.apart hfound (by omega)
        obtain ⟨more, hmore⟩ := hx
        have hcpos := c.utf8Size_pos
        rw [← hmore] at hapart
        simp only [Text.size_append, Text.size_cons] at hapart
        omega

end AttributeSite

namespace Fix

variable {t : Text}

/-- Whether a value can end before a text shows in the first character of the text. -/
theorem endsValue_of_head? {a b : Text} (h : a.head? = b.head?) (hb : endsValue b = true) :
    endsValue a = true := by
  cases a with
  | nil => rfl
  | cons c a =>
      cases b with
      | nil => cases h
      | cons d b =>
          obtain rfl := Option.some.inj h
          exact hb

/-- Quoting is anchored at an attribute. -/
theorem exists_anchor_quoteAttribute (h : Anchored t) {tag : TagToken} {a : AttributeToken}
    (htag : tag ∈ (scan t).tags) (ha : a ∈ tag.attributes)
    (hquoting : a.quoting = .unquoted ∨ a.quoting = .unterminated) :
    ∃ u x z, Anchor (.quoteAttribute a.position a.name a.raw) t u x z := by
  obtain ⟨written, u, w, e, hsite⟩ := h.exists_attributeSite htag ha
  obtain ⟨rest, hw, hends, hslash⟩ := hsite.exists_rest hquoting
  have hraw := hsite.token.2.1
  have ht : t = u ++ (written.beforeValue ++ a.raw ++ (rest ++ e)) := by
    rw [hsite.text_of_eq hw]
    simp
  have hopening : '<' ∉ a.raw := bracket_not_mem_raw htag ha
  have hfault : tag.hasFault = true := by
    refine List.any_eq_true.mpr ⟨a, ha, ?_⟩
    rcases hquoting with h | h <;> simp [AttributeToken.fault?, h]
  obtain ⟨hstart, hstop⟩ := hsite.found.inside
  refine ⟨u, written.beforeValue ++ a.raw, rest ++ e, ht, ?_, ?_, fun changed hchanged => ?_⟩
  · rw [position?, hsite.position_eq]
  · refine fun other v y => hsite.prefix_of_precedes h ht ?_ ?_ ?_
    · rw [hraw]
      exact List.prefix_rfl
    · rw [List.mem_append, not_or]
      exact ⟨hsite.not_mem_beforeValue (by decide) (by decide) (by decide), hopening⟩
    · exact fun m s hsplit f hf hopen hplace =>
        hsite.not_precedes h htag ha hquoting hsplit hf hopen hplace
  · refine ⟨written.beforeValue ++ requote a.raw ++ changed,
      hsite.editAt_quoteAttribute (endsValue_of_head? hchanged.head hends), ?_⟩
    · refine hchanged.exchange htag hfault hstart ?_ ?_ ?_ ?_ fun l hl => ?_
      · rw [hraw]
        exact Nat.le_of_lt hstop
      · simp [AttributeText.beforeValue]
      · simp [AttributeText.beforeValue]
      · simp [requote, List.count_append, List.count_filter]
      · rw [List.append_assoc, ← List.append_assoc] at hl ⊢
        refine hl.requote (hsite.getLast?_beforeValue_ne_slash l) hopening fun hhead => ?_
        rw [hchanged.head] at hhead
        exact hslash hhead

/-- Collapsing quotes is anchored at an attribute. -/
theorem exists_anchor_collapseQuotes (h : Anchored t) {tag : TagToken} {a : AttributeToken}
    {quotes : Nat} (htag : tag ∈ (scan t).tags) (ha : a ∈ tag.attributes)
    (hquoting : a.quoting = .corrupted quotes) :
    ∃ u x z, Anchor (.collapseQuotes a.position a.name quotes) t u x z := by
  obtain ⟨written, u, w, e, hsite⟩ := h.exists_attributeSite htag ha
  obtain ⟨run, rest, hw, rfl, hne, hrun, hend, hprefix, -⟩ := hsite.exists_run hquoting
  have ht : t = u ++ (written.beforeValue ++ run ++ (rest ++ e)) := by
    rw [hsite.text_of_eq hw]
    simp
  have hfault : tag.hasFault = true :=
    List.any_eq_true.mpr ⟨a, ha, by simp [AttributeToken.fault?, hquoting]⟩
  have hfree : ∀ c : Char, c ≠ '"' → c ∉ run := fun c hc hmem => hc (hrun c hmem)
  obtain ⟨hstart, hstop⟩ := hsite.found.inside
  have hshort : Text.size (written.beforeValue ++ run) ≤ Text.size written.toText := by
    obtain ⟨more, hmore⟩ := hprefix
    rw [AttributeText.toText, ← hmore]
    simp only [Text.size_append]
    omega
  refine ⟨u, written.beforeValue ++ run, rest ++ e, ht, ?_, ?_, fun changed hchanged => ?_⟩
  · rw [position?, hsite.position_eq]
  · refine fun other v y => hsite.prefix_of_precedes h ht ?_ ?_ ?_
    · rw [AttributeText.toText]
      exact (List.prefix_append_right_inj _).mpr hprefix
    · rw [List.mem_append, not_or]
      exact ⟨hsite.not_mem_beforeValue (by decide) (by decide) (by decide), hfree _ (by decide)⟩
    · intro m s hsplit
      have hmem : '&' ∈ written.beforeValue ++ run := by
        rw [hsplit]
        simp
      rcases List.mem_append.mp hmem with hmem | hmem
      · exact absurd hmem (hsite.not_mem_beforeValue (by decide) (by decide) (by decide))
      · exact absurd hmem (hfree _ (by decide))
  · obtain ⟨quotes, hquotes⟩ : ∃ quotes : Text,
      quotes = if noValue changed then ['"', '"'] else ['"'] := ⟨_, rfl⟩
    have hfree' : ∀ c : Char, c ≠ '"' → c ∉ quotes := fun c hc => by
      rw [hquotes]
      split <;> simp [hc]
    refine ⟨written.beforeValue ++ quotes ++ changed, ?_, ?_⟩
    · rw [← hchanged.head] at hend
      rw [hquotes]
      exact hsite.editAt_collapseQuotes hrun hne hend
    · refine hchanged.exchange htag hfault hstart (by omega) ?_ ?_ ?_ fun l hl => ?_
      · simp [AttributeText.beforeValue]
      · simp [AttributeText.beforeValue]
      · rw [List.count_append, List.count_append, List.count_eq_zero.mpr (hfree _ (by decide)),
          List.count_eq_zero.mpr (hfree' _ (by decide))]
      · rw [List.append_assoc, ← List.append_assoc] at hl ⊢
        refine hl.exchange_plain (hfree _ (by decide)) (hfree' _ (by decide)) (hfree _ (by decide))
          (hfree' _ (by decide)) fun _ _ hslash => ?_
        rw [List.getLast?_append_of_ne_nil _ hne] at hslash
        exact hfree '/' (by decide) (List.mem_of_getLast? hslash)

/-- Completing a reference is anchored at a reference that is not terminated. -/
theorem exists_anchor_terminateEntity {e : EntityToken} (he : e ∈ (scan t).entities)
    (hopen : e.terminated = false) :
    ∃ u x z, Anchor (.terminateEntity e.position e.text) t u x z := by
  obtain ⟨u, name, z, hsite⟩ := exists_referenceSite he hopen
  have hfree : ∀ c : Char, isEntityNameChar c = false → c ≠ '&' → c ∉ '&' :: name := by
    intro c hc hne
    simp [not_mem_of_class hsite.chars hc, hne]
  refine ⟨u, '&' :: name, z, hsite.text, by rw [position?, hsite.position], ?_,
    fun changed hchanged => ?_⟩
  · refine fun other v y ht' _ _ =>
      prefix_of_precedes hsite.text ht' (hfree _ (by decide) (by decide)) ?_
    rw [reach, hsite.written]
    exact Nat.le_max_left _ _
  · have hcompletion : e.completion = if name = [] then "amp;".toList else [';'] := by
      rw [EntityToken.completion, EntityToken.isBare, hsite.written]
      cases name <;> rfl
    refine ⟨'&' :: name ++ (e.completion ++ changed), ?_,
      hchanged.complete he hopen hsite.nameEnd (List.cons_ne_nil _ _)
        (hfree _ (by decide) (by decide)) (hfree _ (by decide) (by decide))⟩
    have hstop := hsite.stop
    have hsemicolon := hsite.semicolon
    rw [← hchanged.head] at hstop hsemicolon
    rw [hsite.written, hcompletion]
    exact terminateAt_append hstop hsemicolon

end Fix

end MarkupRepair
