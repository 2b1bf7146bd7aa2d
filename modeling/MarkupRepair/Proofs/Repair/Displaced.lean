import Mathlib.Data.List.Infix
import MarkupRepair.Proofs.Repair.Place
import MarkupRepair.Proofs.Repair.Sheltered

/-!
# Displaced fixes

A fix is at home as long as the text up to its place is the one that was scanned and it recognises
what comes after it. There it changes the token that it comes from, which is outside of the
sections. Otherwise the fix is displaced: it may take any other text of its line for that token, and
the closing tag before which another one is put may be any, in a comment or a CDATA section too. It
changes none of the sections when they have nothing that it could take for what it looks for.
-/

namespace MarkupRepair

namespace Fix

/-- Whether a fix could take what comes after a place in a section for what it looks for. -/
def mayTake (fix : Fix) (before : Option Char) (after : Text) : Bool :=
  match fix with
  | .quoteAttribute _ name _ | .collapseQuotes _ name _ => (assignment? before after name).isSome
  | .terminateEntity _ entity => (terminateAt entity after).isSome
  | .expandSelfClosing _ tag =>
      Text.startsWith (Text.toLowerAscii after) ('<' :: Text.toLowerAscii tag) &&
        decide (['/', '>'] <:+: after)
  | .closeElement _ =>
      ["body".toList, "html".toList].any fun name => Text.startsWith after (closingTag name)
  | .ensureProlog | .ensureDoctype | .ensureNamespace => false

/-- Whether a section has nothing that a fix could take for what it looks for. -/
def Overlooks (fix : Fix) (s : Text) : Prop :=
  ∀ c ∈ cursors s, fix.mayTake c.before c.after = false

/-- Whether a fix that was planned for a scanned text finds what it looks for in a text where it was
found by the scan. A closing tag is at home when its place is the one in the masked text. -/
def isAtHome (fix : Fix) (scanned t : Text) : Bool :=
  match fix with
  | .closeElement tag => closeAnchor? t tag == closeAnchor? (mask t) tag
  | .ensureProlog | .ensureDoctype | .ensureNamespace => true
  | .quoteAttribute p _ _ | .collapseQuotes p _ _ | .terminateEntity p _
  | .expandSelfClosing p _ =>
      scanned.inits.any fun front => front.isPrefixOf t && Text.endPosition front == p &&
        (fix.editAt front.getLast? (t.drop front.length)).isSome

end Fix

/-- The fixes that are displaced when they change something, when fixes for a scanned text are
applied one after another. -/
def RepairPlan.displaced (scanned : Text) : List PlannedFix → Text → List Fix
  | [], _ => []
  | planned :: rest, t =>
      match planned.fix.apply t with
      | some next =>
          if planned.fix.isAtHome scanned t then displaced scanned rest next
          else planned.fix :: displaced scanned rest next
      | none => displaced scanned rest t

/-- The fixes that are displaced in some passes over a text. -/
def displacedWithin (policy : RepairPolicy) : (budget : Nat) → Text → List Fix
  | 0, _ => []
  | budget + 1, t =>
      let plan := RepairPlan.ofIssues policy (analyze t)
      RepairPlan.displaced t plan.fixes t ++ displacedWithin policy budget (plan.apply t).1

/-- The fixes that are displaced when a text is repaired. -/
def RepairOptions.displaced (options : RepairOptions) (t : Text) : List Fix :=
  displacedWithin options.policy (max options.maxPasses 1) t

/-- Whether the sections of a text are closed, stand between tags and have nothing that a fix could
take for what it looks for when it is displaced. -/
structure Guarded (options : RepairOptions) (t : Text) : Prop extends Sheltered t where
  /-- No displaced fix finds anything in a section. -/
  overlooked : ∀ fix ∈ options.displaced t, ∀ s ∈ hiddenSections t, fix.Overlooks s

/-- The place between two parts of a text. -/
theorem mem_cursors_append (a b : Text) : ⟨Text.size a, a.getLast?, b⟩ ∈ cursors (a ++ b) := by
  obtain ⟨earlier, hcursors, -⟩ := exists_cursorsFrom_append 0 none a b
  rw [Nat.zero_add, Option.or_none] at hcursors
  rw [cursors, hcursors]
  refine List.mem_append_right _ ?_
  cases b with
  | nil => exact List.mem_singleton_self _
  | cons c b => exact List.mem_cons_self

namespace Fix

variable {fix : Fix} {before : Option Char} {front after changed v rest : Text}

section Taking

/-- An assignment in front of the end of a section is in the section. -/
theorem isSome_assignment? {name space more : Text} (hname : ∀ c ∈ name, isNameChar c = true)
    (hbefore : before.any isWhiteSpace = true) (hspace : ∀ c ∈ space, isWhiteSpace c = true)
    (hafter : v ++ ['>'] ++ rest = name ++ space ++ '=' :: more) :
    (assignment? before (v ++ ['>']) name).isSome = true := by
  have hfree : '>' ∉ name ++ space ++ ['='] :=
    not_mem_assignment (not_mem_of_class hname (by decide)) hspace (by simp) (by decide) (by decide)
  have hsplit : v ++ '>' :: rest = (name ++ space ++ ['=']) ++ more := by
    simpa using hafter
  obtain ⟨m, rfl, -⟩ := exists_eq_append_of_not_mem hsplit hfree
  have hassignment := assignment?_append hbefore hspace name (m ++ ['>'])
  have hwhole : name ++ space ++ ['='] ++ m ++ ['>'] = name ++ space ++ '=' :: (m ++ ['>']) := by
    simp
  rw [hwhole, hassignment]
  rfl

/-- A reference in front of the end of a section is completed in the section alone, too. -/
theorem isSome_terminateAt {name : Text} (hname : ∀ c ∈ name, isEntityNameChar c = true)
    (hedit : terminateAt ('&' :: name) (v ++ ['>'] ++ rest) = some changed) :
    (terminateAt ('&' :: name) (v ++ ['>'])).isSome = true := by
  obtain ⟨_, tail, hafter, -, -, htail, hsemicolon⟩ := exists_of_terminateAt hedit
  have hfree : '>' ∉ '&' :: name := by
    simp [not_mem_of_class hname (by decide : isEntityNameChar '>' = false)]
  have hsplit : v ++ '>' :: rest = '&' :: name ++ tail := by
    simpa using hafter
  obtain ⟨m, rfl, rfl⟩ := exists_eq_append_of_not_mem hsplit hfree
  have hhead : (m ++ ['>']).head? = (m ++ '>' :: rest).head? := by
    cases m <;> rfl
  rw [← hhead] at htail hsemicolon
  have hopen : name ≠ [] → (m ++ ['>']).head? ≠ some ';' := fun hne =>
    hsemicolon (by simpa using hne)
  rw [List.append_assoc, List.cons_append, terminateAt_append htail hopen]
  rfl

/-- A self-closing tag that begins in a section ends in it, when no bracket closes after the section
before one opens. -/
theorem toText_prefix_of_section {tag : TagText} {r later : Text}
    (hread : TagText.read? r = some tag) (hend : ∃ z, tag.toText = z ++ ['/', '>'])
    (hafter : v ++ ['>'] ++ rest = tag.toText ++ later)
    (hnext : ∀ q z, rest = q ++ '>' :: z → '<' ∈ q) : tag.toText <+: v ++ ['>'] := by
  obtain ⟨d, w, htext, -, hbracket⟩ := TagText.exists_toText_eq hread
  have hwhole : v ++ ['>'] <+: tag.toText ++ later := ⟨rest, hafter⟩
  rcases List.prefix_or_prefix_of_prefix (List.prefix_append tag.toText later) hwhole with
    hinside | ⟨x, hx⟩
  · exact hinside
  · rcases List.eq_nil_or_concat' x with rfl | ⟨x, c, rfl⟩
    · exact ⟨[], by rw [← hx, List.append_nil, List.append_nil]⟩
    · exfalso
      obtain ⟨z, hz⟩ := hend
      have hc : c = '>' := by
        have hlast := congrArg List.getLast? (hx.trans hz)
        rw [← List.append_assoc, List.getLast?_concat] at hlast
        simpa using hlast
      subst hc
      have hrest : rest = x ++ '>' :: later := by
        rw [← hx, List.append_assoc, List.append_assoc, List.append_assoc] at hafter
        simpa using hafter
      refine hbracket ?_
      have hinner : v ++ ['>'] ++ x = '<' :: d :: w := by
        rw [htext, ← List.append_assoc, ← List.cons_append, ← List.cons_append] at hx
        exact (List.append_inj' hx rfl).1
      cases v with
      | nil => exact absurd (List.cons.inj hinner).1 (by decide)
      | cons e v =>
          rw [← (List.cons.inj hinner).2]
          exact List.mem_append_right _ (hnext x later hrest)

/-- What a fix recognises from a place in a section on, it could take for what it looks for. -/
theorem mayTake_of_editAt (hfix : ∃ source, fix.BelongsTo (scan source))
    (hedit : fix.editAt before (v ++ ['>'] ++ rest) = some changed)
    (hnext : ∀ q z, rest = q ++ '>' :: z → '<' ∈ q) :
    fix.mayTake before (v ++ ['>']) = true := by
  obtain ⟨source, hbelongs⟩ := hfix
  cases fix with
  | quoteAttribute p name value =>
      obtain ⟨tag, htag, a, ha, -, rfl, -, -⟩ := hbelongs
      obtain ⟨space, gap, tail, hafter, -, hbefore, hspace, -⟩ := exists_of_quoteAt hedit
      have hsplit : v ++ ['>'] ++ rest = a.name ++ space ++ '=' :: (gap ++ (value ++ tail)) := by
        rw [hafter]
        simp
      exact isSome_assignment? (nameChars_of_mem_attributes htag ha) hbefore hspace hsplit
  | collapseQuotes p name quotes =>
      obtain ⟨tag, htag, a, ha, -, rfl, -⟩ := hbelongs
      obtain ⟨space, gap, run, tail, hafter, -, hbefore, hspace, -⟩ := exists_of_collapseAt hedit
      have hsplit : v ++ ['>'] ++ rest = a.name ++ space ++ '=' :: (gap ++ (run ++ tail)) := by
        rw [hafter]
        simp
      exact isSome_assignment? (nameChars_of_mem_attributes htag ha) hbefore hspace hsplit
  | terminateEntity p entity =>
      obtain ⟨e, he, -, rfl, -⟩ := hbelongs
      obtain ⟨name, hname, hchars⟩ := exists_text_eq he
      simp only [editAt, mayTake, hname] at hedit ⊢
      exact isSome_terminateAt hchars hedit
  | expandSelfClosing p name =>
      obtain ⟨tag, later, htag, hkind, hafter, -⟩ := exists_of_expandAt hedit
      obtain ⟨r, -, hread⟩ := TagText.exists_read?_of_atStart? htag
      obtain ⟨hleading, htrailing⟩ := TagText.slashes_of_selfClosing hkind
      have hwritten : tag.toText = '<' :: tag.name ++ tag.body ++ ['/', '>'] := by
        simp [TagText.toText, hleading, htrailing]
      have hinside := toText_prefix_of_section hread ⟨_, hwritten⟩ hafter hnext
      have hname := name_of_expandAt hedit htag
      rw [mayTake, Bool.and_eq_true, Text.startsWith_iff, decide_eq_true_eq, ← hname]
      have hslash : ['/', '>'] <:+: tag.toText := ⟨_, [], by rw [hwritten, List.append_nil]⟩
      refine ⟨?_, hslash.trans hinside.isInfix⟩
      obtain ⟨z, hz⟩ := hinside
      rw [← hz, hwritten]
      exact ⟨Text.toLowerAscii (tag.body ++ ['/', '>'] ++ z), by simp [Text.toLowerAscii]⟩
  | _ => cases hedit

/-- No section reaches over the place from which on a fix recognises what it looks for, when there
is nothing in the sections that it could take for that. -/
theorem cutsAt_of_overlooks (h : Sheltered (front ++ after))
    (hfix : ∃ source, fix.BelongsTo (scan source))
    (hover : ∀ s ∈ hiddenSections (front ++ after), fix.Overlooks s)
    (hedit : fix.editAt front.getLast? after = some changed) : Segment.CutsAt front after := by
  refine h.cutsAt fun u v rest hmem hsuffix hafter hnext => ?_
  subst hafter
  obtain ⟨m, rfl⟩ := hsuffix
  have hnone := hover _ hmem _ (mem_cursors_append ('<' :: u) (v ++ ['>']))
  rw [List.getLast?_append_of_ne_nil _ (List.cons_ne_nil _ _)] at hedit
  rw [mayTake_of_editAt hfix hedit hnext] at hnone
  cases hnone

end Taking

section Home

variable {z : Text}

/-- No section reaches over the place of a token of the masked text. -/
theorem cutsAt_of_position {a b : Text} {d : Char} (h : Sheltered (front ++ z))
    (hmask : mask (front ++ z) = a ++ d :: b) (hblank : d ≠ ' ') (hfeed : d ≠ '\n')
    (hposition : (LineIndex.ofText (front ++ z)).position (Text.size a) =
      Text.endPosition front) : Segment.CutsAt front z := by
  obtain ⟨u, w, ht, hsize, hcut⟩ := h.exists_cutsAt_of_mask hmask hblank hfeed
  rw [← hsize, ht, LineIndex.position_ofText_append] at hposition
  obtain rfl := LineIndex.eq_of_endPosition_eq ht.symm hposition
  obtain rfl := List.append_cancel_left ht
  exact hcut

/-- No section reaches over the place of an attribute. -/
theorem cutsAt_of_mem_attributes {tag : TagToken} {a : AttributeToken}
    (h : Sheltered (front ++ z)) (htag : tag ∈ (scan (front ++ z)).tags)
    (ha : a ∈ tag.attributes) (hposition : a.position = Text.endPosition front) :
    Segment.CutsAt front z := by
  obtain ⟨o, written, hfound⟩ := exists_foundAt htag ha
  obtain ⟨u, q, w, hmask, rfl, hread⟩ := hfound.exists_mask
  obtain ⟨d, q, rfl, hd⟩ : ∃ d r, q = d :: r ∧ AttributeText.isNameStart d = true := by
    cases q with
    | nil => cases hread
    | cons d r =>
        unfold AttributeText.read? at hread
        split at hread
        next hstart => exact ⟨d, r, rfl, hstart⟩
        next => cases hread
  rw [hfound.token_eq] at hposition
  refine cutsAt_of_position h hmask ?_ ?_ hposition
  · exact ne_of_class hd (by decide)
  · exact ne_of_class hd (by decide)

/-- No section reaches over the place of an attribute either, when what comes after the place has
changed. -/
theorem cutsAt_of_blank (hcut : Segment.CutsAt front z)
    (hbefore : front.getLast?.any isWhiteSpace = true) (after : Text) :
    Segment.CutsAt front after := by
  rcases List.eq_nil_or_concat' front with rfl | ⟨f, c, rfl⟩
  · cases hbefore
  · rw [List.getLast?_concat, Option.any_some] at hbefore
    have hplain : Segment.OpensNothing [c] := by
      refine Segment.opensNothing_of_not_mem ?_
      rw [List.mem_singleton]
      exact (ne_of_class hbefore (by decide)).symm
    have hnone : c ∉ openerTail := by
      simp only [openerTail, List.mem_cons, List.not_mem_nil, or_false]
      rintro (rfl | rfl | rfl | rfl | rfl | rfl | rfl)
      all_goals exact absurd hbefore (by decide)
    have hback := hcut.back (ne_of_class hbefore (by decide))
    exact (hback.exchange hnone hplain after).forward hplain

/-- No section reaches over the place of a fix while the text up to it is the scanned one and the fix
recognises what comes after it. -/
theorem cutsAt_of_place (h : Sheltered (front ++ z)) (hfix : fix.BelongsTo (scan (front ++ z)))
    (hposition : fix.position? = some (Text.endPosition front))
    (hedit : fix.editAt front.getLast? after = some changed) : Segment.CutsAt front after := by
  cases fix with
  | quoteAttribute p name value =>
      obtain ⟨tag, htag, a, ha, hp, -⟩ := hfix
      obtain ⟨_, _, _, -, -, hbefore, -⟩ := exists_of_quoteAt hedit
      exact cutsAt_of_blank (cutsAt_of_mem_attributes h htag ha
        (hp.trans (Option.some.inj hposition))) hbefore after
  | collapseQuotes p name quotes =>
      obtain ⟨tag, htag, a, ha, hp, -⟩ := hfix
      obtain ⟨_, _, _, _, -, -, hbefore, -⟩ := exists_of_collapseAt hedit
      exact cutsAt_of_blank (cutsAt_of_mem_attributes h htag ha
        (hp.trans (Option.some.inj hposition))) hbefore after
  | terminateEntity p entity =>
      obtain ⟨e, he, hp, rfl, -⟩ := hfix
      obtain ⟨name, hname, hchars⟩ := exists_text_eq he
      obtain ⟨a, b, hmask, rfl⟩ := exists_of_mem_entities he
      have hcut := cutsAt_of_position h hmask (by decide) (by decide)
        (hp.trans (Option.some.inj hposition))
      obtain ⟨_, tail, rfl, -⟩ := exists_of_terminateAt hedit
      rw [hname]
      refine hcut.exchange (by decide) (Segment.opensNothing_of_not_mem ?_) tail
      simp [not_mem_of_class hchars (by decide : isEntityNameChar '<' = false)]
  | expandSelfClosing p name =>
      obtain ⟨token, htoken, hp, -⟩ := hfix
      obtain ⟨a, b, _, hmask, -, rfl⟩ := exists_of_mem_tags htoken
      have hcut := cutsAt_of_position h hmask (by decide) (by decide)
        (hp.trans (Option.some.inj hposition))
      obtain ⟨tag, later, htag, -, rfl, -⟩ := exists_of_expandAt hedit
      obtain ⟨r, -, hread⟩ := TagText.exists_read?_of_atStart? htag
      exact hcut.exchange (x := tag.toText.tail) (by decide) (TagText.opensNothing_toText hread)
        later
  | _ => cases hposition

/-- Where a fix with a place is at home: behind a beginning of the scanned text. -/
theorem exists_of_isAtHome {p : Position} {scanned t : Text} (hp : fix.position? = some p)
    (h : fix.isAtHome scanned t = true) : ∃ front z after changed, scanned = front ++ z ∧
      t = front ++ after ∧ p = Text.endPosition front ∧
        fix.editAt front.getLast? after = some changed := by
  have hany : (scanned.inits.any fun front => front.isPrefixOf t && Text.endPosition front == p &&
      (fix.editAt front.getLast? (t.drop front.length)).isSome) = true := by
    cases fix with
    | quoteAttribute | collapseQuotes | terminateEntity | expandSelfClosing =>
        obtain rfl := Option.some.inj hp
        exact h
    | _ => cases hp
  obtain ⟨front, hfront, hhome⟩ := List.any_eq_true.mp hany
  obtain ⟨z, rfl⟩ := (List.mem_inits _ _).mp hfront
  rw [Bool.and_eq_true, Bool.and_eq_true, List.isPrefixOf_iff_prefix, beq_iff_eq,
    Option.isSome_iff_exists] at hhome
  obtain ⟨⟨⟨after, rfl⟩, rfl⟩, changed, hedit⟩ := hhome
  rw [List.drop_left] at hedit
  exact ⟨front, z, after, changed, rfl, rfl, rfl, hedit⟩

/-- A fix with a place keeps the sections when it is at home, and when there is nothing in them that
it could take for what it looks for. -/
theorem keepsSections_applyInLine {p : Position} {scanned t next : Text} (h : Sheltered scanned)
    (ht : KeepsSections scanned t) (hfix : fix.BelongsTo (scan scanned))
    (hp : fix.position? = some p)
    (hover : fix.isAtHome scanned t = false → ∀ s ∈ hiddenSections scanned, fix.Overlooks s)
    (happly : fix.applyInLine p t = some next) : KeepsSections t next := by
  have hsheltered := ht.sheltered h
  cases hhome : fix.isAtHome scanned t with
  | true =>
      obtain ⟨front, z, after, changed, rfl, rfl, rfl, hedit⟩ := exists_of_isAtHome hp hhome
      obtain rfl := Option.some.inj ((applyInLine_append hedit).symm.trans happly)
      exact keepsSections_editAt hsheltered (cutsAt_of_place h hfix hp hedit) ⟨_, hfix⟩ hedit
  | false =>
      obtain ⟨front, after, changed, rfl, rfl, hedit⟩ := exists_of_applyInLine happly
      have hnone := hover hhome
      rw [← ht.1] at hnone
      exact keepsSections_editAt hsheltered
        (cutsAt_of_overlooks hsheltered ⟨_, hfix⟩ hnone hedit) ⟨_, hfix⟩ hedit

end Home

section Closing

variable {tag a b scanned t : Text}

/-- No section reaches over the place in front of the closing tag of the body or of the document when
the place is the one in the masked text. -/
theorem cutsAt_of_anchor_mask (h : Sheltered (a ++ b))
    (hanchor : closeAnchor? (mask (a ++ b)) tag = some (Text.size a)) : Segment.CutsAt a b := by
  obtain ⟨name, -, a', b', hmask, hsize⟩ := exists_of_closeAnchor? hanchor
  obtain ⟨u, w, ht, hu, hcut⟩ := h.exists_cutsAt_of_mask hmask (by decide) (by decide)
  obtain ⟨rfl, rfl⟩ := Text.append_inj_of_size ht (hsize.trans hu.symm)
  exact hcut

/-- No section reaches over that place either when there is no such closing tag in the sections. -/
theorem cutsAt_of_anchor (h : Sheltered (a ++ b))
    (hanchor : closeAnchor? (a ++ b) tag = some (Text.size a))
    (hover : ∀ s ∈ hiddenSections (a ++ b), (closeElement tag).Overlooks s) :
    Segment.CutsAt a b := by
  obtain ⟨name, hname, a', b', ht, hsize⟩ := exists_of_closeAnchor? hanchor
  obtain ⟨rfl, rfl⟩ := Text.append_inj_of_size ht hsize
  refine h.cutsAt fun u v rest hmem _ hafter _ => ?_
  have hwhole : closingTag name <+: v ++ ['>'] := by
    have hmark : '>' ∉ '<' :: '/' :: name := by
      simp only [List.mem_cons, List.not_mem_nil, or_false] at hname
      rcases hname with rfl | rfl <;> decide
    have hsplit : v ++ '>' :: rest = '<' :: '/' :: name ++ '>' :: b' := by
      simpa [closingTag] using hafter.symm
    obtain ⟨m, rfl, hm⟩ := exists_eq_append_of_not_mem hsplit hmark
    cases m with
    | nil => exact ⟨[], by simp [closingTag]⟩
    | cons c m =>
        obtain rfl := (List.cons.inj hm).1
        exact ⟨m ++ ['>'], by simp [closingTag]⟩
  have hnone := hover _ hmem _ (mem_cursors_append ('<' :: u) (v ++ ['>']))
  have hsome : (closeElement tag).mayTake ('<' :: u).getLast? (v ++ ['>']) = true :=
    List.any_eq_true.mpr ⟨name, hname, Text.startsWith_iff.mpr hwhole⟩
  rw [hsome] at hnone
  cases hnone

end Closing

end Fix

/-- Displaced fixes are among those that were planned. -/
theorem RepairPlan.exists_of_mem_displaced {fixes : List PlannedFix} {scanned t : Text} {fix : Fix}
    (h : fix ∈ displaced scanned fixes t) : ∃ planned ∈ fixes, planned.fix = fix := by
  induction fixes generalizing t with
  | nil => cases h
  | cons planned rest ih =>
      have hlater : ∀ {t}, fix ∈ displaced scanned rest t →
          ∃ planned' ∈ planned :: rest, planned'.fix = fix := by
        intro t hmem
        obtain ⟨planned', hplanned, hfix⟩ := ih hmem
        exact ⟨planned', List.mem_cons_of_mem _ hplanned, hfix⟩
      unfold displaced at h
      split at h
      next =>
        split at h
        next => exact hlater h
        next =>
          rcases List.mem_cons.mp h with rfl | hmem
          · exact ⟨planned, List.mem_cons_self, rfl⟩
          · exact hlater hmem
      next => exact hlater h

/-- Displaced fixes belong to a token of a scan. -/
theorem exists_belongsTo_of_mem_displacedWithin {policy : RepairPolicy} {budget : Nat} {t : Text}
    {fix : Fix} (h : fix ∈ displacedWithin policy budget t) :
    ∃ source, fix.BelongsTo (scan source) := by
  induction budget generalizing t with
  | zero => cases h
  | succ budget ih =>
      rcases List.mem_append.mp h with hfirst | hlater
      · obtain ⟨planned, hplanned, rfl⟩ := RepairPlan.exists_of_mem_displaced hfirst
        exact ⟨t, RepairPlan.belongsTo_of_mem_fixes hplanned⟩
      · exact ih hlater

/-- Whether a section has nothing that any fix could take for what it looks for. -/
structure IsInert (s : Text) : Prop where
  /-- It ends with the closer of its own kind. -/
  closed : IsClosed s
  /-- It has nothing like an attribute. -/
  noAssignment : '=' ∉ s
  /-- Its references are terminated. -/
  terminated : Terminated s
  /-- It has nothing like the end of a self-closing tag. -/
  noSlashEnd : ¬ ['/', '>'] <:+: s
  /-- It has no closing tag that another one could be put before. -/
  noAnchor : ∀ name ∈ ["body".toList, "html".toList], ¬ Fix.closingTag name <:+: s

/-- There is nothing for a fix in an inert section. -/
theorem IsInert.overlooks {fix : Fix} {s : Text} (h : IsInert s)
    (hfix : ∃ source, fix.BelongsTo (scan source)) : fix.Overlooks s := by
  obtain ⟨source, hbelongs⟩ := hfix
  intro c hc
  obtain ⟨front, rfl, -⟩ := exists_of_mem_cursors hc
  have hnone : ∀ name, (Fix.assignment? c.before c.after name).isSome = false := by
    intro name
    rw [Option.isSome_eq_false_iff, Option.isNone_iff_eq_none, Option.eq_none_iff_forall_ne_some]
    rintro ⟨assignment, rest⟩ hassignment
    obtain ⟨hafter, -, space, rfl, -⟩ := Fix.eq_append_of_assignment? hassignment
    refine h.noAssignment ?_
    rw [hafter]
    simp
  cases fix with
  | quoteAttribute p name value => exact hnone name
  | collapseQuotes p name quotes => exact hnone name
  | terminateEntity p entity =>
      obtain ⟨e, he, -, rfl, -⟩ := hbelongs
      obtain ⟨name, hname, hchars⟩ := exists_text_eq he
      rw [Fix.mayTake, hname, Option.isSome_eq_false_iff, Option.isNone_iff_eq_none,
        Option.eq_none_iff_forall_ne_some]
      intro changed hedit
      obtain ⟨_, tail, hafter, -, -, htail, hsemicolon⟩ := Fix.exists_of_terminateAt hedit
      have hterminated := h.terminated.of_append
      rw [hafter] at hterminated
      obtain ⟨hne, hhead⟩ := EntityText.semicolon_of_terminated hchars htail hterminated
      exact hsemicolon (by simpa using hne) hhead
  | expandSelfClosing p tag =>
      have hslash : ¬ ['/', '>'] <:+: c.after := fun hends =>
        h.noSlashEnd (hends.trans (List.suffix_append front c.after).isInfix)
      simp [Fix.mayTake, hslash]
  | closeElement tag =>
      refine List.any_eq_false.mpr fun name hname hstarts => ?_
      refine h.noAnchor name hname ?_
      exact (Text.startsWith_iff.mp hstarts).isInfix.trans
        (List.suffix_append front c.after).isInfix
  | _ => rfl

/-- A text whose sections are inert and stand between tags is guarded against fixes of any policy
in any number of passes. -/
theorem guarded_of_isInert (options : RepairOptions) {t : Text}
    (hinert : ∀ s ∈ hiddenSections t, IsInert s) (hbetween : BetweenTags t) :
    Guarded options t where
  closed s hs := (hinert s hs).closed
  between := hbetween
  overlooked _ hfix s hs :=
    (hinert s hs).overlooks (exists_belongsTo_of_mem_displacedWithin hfix)

end MarkupRepair
