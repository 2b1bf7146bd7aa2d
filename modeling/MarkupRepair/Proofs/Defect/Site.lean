import MarkupRepair.Issue.Classify
import MarkupRepair.Proofs.Defect.Piece
import MarkupRepair.Proofs.Repair.Planning
import MarkupRepair.Proofs.Text.Lines

/-!
# The sites of the defects

Every defect of a sequence of pieces has a site: the text before it. Sites come in reading order,
and what the fix for a defect reads ends before the site of the next one. So all these fixes are
compatible, and they are applied in the order opposite to reading.
-/

namespace MarkupRepair

/-- What is wrong at a place of a document. -/
inductive Defect where
  /-- A container in self-closing form. -/
  | collapsed (name : Text)
  /-- An attribute that is not quoted. -/
  | unquoted (name value : Text)
  /-- A reference, its ampersand included, without a semicolon. -/
  | openReference (entity : Text)

namespace Defect

/-- The kind of issue that a defect is. -/
def kind : Defect → IssueKind
  | collapsed name => .selfClosedContainer name
  | unquoted name value => .unquotedAttribute name value
  | openReference entity => .invalidEntity entity

/-- The fix for a defect at a position. -/
def fix (p : Position) : Defect → Fix
  | collapsed name => .expandSelfClosing p name
  | unquoted name value => .quoteAttribute p name value
  | openReference entity => .terminateEntity p entity

/-- Number of bytes that the fix for a defect claims. -/
def reach : Defect → Nat
  | collapsed name => max (Text.size name + 1) 1
  | unquoted name value => max (Text.size name + 1 + Text.size value) 1
  | openReference entity => max (Text.size entity) 1

theorem footprint?_fix (d : Defect) (p : Position) :
    (d.fix p).footprint? = some ⟨p.line, p.column, p.column + d.reach⟩ := by
  cases d <;> rfl

end Defect

/-- A defect and the text before it. -/
structure Site where
  /-- The text before the defect. -/
  before : Text
  /-- The defect. -/
  defect : Defect

namespace Site

variable {s s' : Site} {a b : List Site} {start middle limit : Text}

/-- The position of the defect. -/
def position (s : Site) : Position := Text.endPosition s.before

/-- The issue that the defect is. -/
def issue (hasDoctype : Bool) (s : Site) : Issue :=
  classify hasDoctype s.defect.kind (some s.position)

/-- The fix for the defect. -/
def planned (s : Site) : PlannedFix :=
  ⟨s.defect.fix s.position, s.defect.kind.code, some s.position.line, some s.position.column⟩

theorem planned?_issue (hasDoctype : Bool) (s : Site) :
    (s.issue hasDoctype).planned? = some s.planned := by
  obtain ⟨before, defect⟩ := s
  cases defect <;> rfl

/-- Each site plans its fix, through the issue that is found there. -/
theorem filterMap_planned?_map_issue (hasDoctype : Bool) (sites : List Site) :
    (sites.map (Site.issue hasDoctype)).filterMap Issue.planned? = sites.map Site.planned := by
  have hsite : Issue.planned? ∘ Site.issue hasDoctype = some ∘ Site.planned :=
    funext fun s => s.planned?_issue hasDoctype
  rw [List.filterMap_map, hsite, List.filterMap_eq_map]

theorem rank_planned (s : Site) : s.planned.rank = 0 := by
  obtain ⟨before, defect⟩ := s
  cases defect <;> rfl

/-- Whether what the fix at a site reads is over at the end of a text. -/
def EndsWithin (s : Site) (limit : Text) : Prop :=
  ∃ w, limit = s.before ++ w ∧ s.defect.reach ≤ Text.size w

theorem EndsWithin.extend (h : s.EndsWithin middle) (hle : middle <+: limit) :
    s.EndsWithin limit := by
  obtain ⟨w, rfl, hreach⟩ := h
  obtain ⟨v, rfl⟩ := hle
  refine ⟨w ++ v, List.append_assoc _ _ _, ?_⟩
  rw [Text.size_append]
  omega

/-- The next site is on a later line, or past the columns that the fix at this one reads. -/
theorem EndsWithin.position (h : s.EndsWithin s'.before) :
    s.position.line < s'.position.line ∨ s.position.line = s'.position.line ∧
      s.position.column + s.defect.reach ≤ s'.position.column := by
  obtain ⟨w, hw, hreach⟩ := h
  unfold Site.position
  rw [hw]
  by_cases hline : '\n' ∈ w
  · exact Or.inl (Text.line_lt_endPosition_append hline)
  · rw [Text.endPosition_append_of_not_mem hline]
    refine Or.inr ⟨rfl, ?_⟩
    dsimp only
    omega

theorem reach_pos (s : Site) : 0 < s.defect.reach := by
  cases s.defect <;> exact Nat.lt_of_lt_of_le Nat.zero_lt_one (Nat.le_max_right _ _)

/-- The fixes at two sites do not get in each other's way. -/
theorem EndsWithin.compatible (h : s.EndsWithin s'.before) : s.planned.Compatible s'.planned := by
  have hposition := h.position
  have hreach := s.reach_pos
  constructor
  · intro hfix
    have hfootprint := congrArg Fix.footprint? hfix
    simp only [planned, Defect.footprint?_fix, Option.some.injEq, Fix.Footprint.mk.injEq]
      at hfootprint
    omega
  · simp only [PlannedFix.blocks, planned, Defect.footprint?_fix, Fix.Footprint.overlaps,
      Bool.and_eq_false_iff, beq_eq_false_iff_ne, decide_eq_false_iff_not]
    rcases hposition with hline | ⟨_, hcolumn⟩
    · exact Or.inl (Or.inl (Nat.ne_of_lt hline))
    · exact Or.inr (Nat.not_lt.mpr hcolumn)

/-- The fix at the later site comes first. -/
theorem EndsWithin.before (h : s.EndsWithin s'.before) : s'.planned.Before s.planned := by
  have hposition := h.position
  have hreach := s.reach_pos
  have hline : ∀ s : Site, s.planned.line.getD 0 = s.position.line := fun _ => rfl
  have hcolumn : ∀ s : Site, s.planned.column.getD 0 = s.position.column := fun _ => rfl
  unfold PlannedFix.Before
  rw [← Bool.not_eq_true, PlannedFix.inOrder_iff, PlannedFix.inOrder_iff, rank_planned,
    rank_planned, hline, hline, hcolumn, hcolumn]
  omega

end Site

/-- Whether sites follow each other between the ends of two beginnings of a text. -/
structure InStretch (sites : List Site) (start limit : Text) : Prop where
  pairwise : sites.Pairwise fun s s' => s.EndsWithin s'.before
  starts : ∀ s ∈ sites, start <+: s.before
  ends : ∀ s ∈ sites, s.EndsWithin limit

namespace InStretch

variable {s : Site} {a b : List Site} {start middle limit : Text}

theorem nil (start limit : Text) : InStretch [] start limit :=
  ⟨List.Pairwise.nil, by simp, by simp⟩

theorem singleton (hstart : start <+: s.before) (hlimit : s.EndsWithin limit) :
    InStretch [s] start limit :=
  ⟨List.pairwise_singleton _ _, by simpa using hstart, by simpa using hlimit⟩

theorem append (ha : InStretch a start middle) (hb : InStretch b middle limit)
    (hstart : start <+: middle) (hlimit : middle <+: limit) : InStretch (a ++ b) start limit := by
  refine ⟨?_, ?_, ?_⟩
  · rw [List.pairwise_append]
    refine ⟨ha.pairwise, hb.pairwise, ?_⟩
    intro s hs s' hs'
    exact (ha.ends s hs).extend (hb.starts s' hs')
  · intro s hs
    rcases List.mem_append.mp hs with hs | hs
    · exact ha.starts s hs
    · exact hstart.trans (hb.starts s hs)
  · intro s hs
    rcases List.mem_append.mp hs with hs | hs
    · exact (ha.ends s hs).extend hlimit
    · exact hb.ends s hs

/-- The fixes at the sites are compatible, and the last one comes first. -/
theorem pairwise_planned (h : InStretch a start limit) :
    (a.reverse.map Site.planned).Pairwise fun p q => p.Compatible q ∧ p.Before q := by
  rw [List.pairwise_map, List.pairwise_reverse]
  exact h.pairwise.imp fun hs => ⟨hs.compatible.symm, hs.before⟩

end InStretch

namespace Piece

/-- The sites in the attributes of a tag that follow a text. -/
def attributeSites (before : Text) : List WrittenAttribute → List Site
  | [] => []
  | a :: rest =>
      (if a.quoted then [] else [⟨before ++ [' '], .unquoted a.name a.value⟩]) ++
        attributeSites (before ++ a.written) rest

/-- The sites in a piece that follows a text. -/
def sites (before : Text) : Piece → List Site
  | unterminated name => [⟨before, .openReference ('&' :: name)⟩]
  | ampersand => [⟨before, .openReference ['&']⟩]
  | tag form name attributes =>
      (if form = .collapsed then [⟨before, .collapsed name⟩] else []) ++
        attributeSites (before ++ '<' :: name) attributes
  | _ => []

/-- The sites in pieces that follow a text. -/
def sitesAll (before : Text) : List Piece → List Site
  | [] => []
  | p :: rest => p.sites before ++ sitesAll (before ++ p.written) rest

theorem length_sitesAll (before : Text) (pieces : List Piece) :
    (sitesAll before pieces).length = defectsAll pieces := by
  have hattributes : ∀ list before, (attributeSites before list).length =
      list.countP (!·.quoted) := by
    intro list
    induction list with
    | nil => exact fun _ => rfl
    | cons a rest ih =>
        intro before
        rw [attributeSites, List.length_append, ih, List.countP_cons]
        cases a.quoted <;> simp [Nat.add_comm]
  have hpiece : ∀ (p : Piece) before, (p.sites before).length = p.defects := by
    intro p before
    cases p with
    | tag form name attributes =>
        rw [sites, defects, List.length_append, hattributes]
        cases form <;> simp [Nat.add_comm]
    | _ => rfl
  induction pieces generalizing before with
  | nil => rfl
  | cons p rest ih => rw [sitesAll, List.length_append, ih, hpiece, defectsAll_cons]

theorem inStretch_attributeSites (before : Text) (list : List WrittenAttribute) :
    InStretch (attributeSites before list) before (before ++ body list) := by
  induction list generalizing before with
  | nil => exact .nil _ _
  | cons a rest ih =>
      have hsplit : before ++ body (a :: rest) = before ++ a.written ++ body rest :=
        (List.append_assoc _ _ _).symm
      have hfirst : InStretch (if a.quoted then [] else
          [⟨before ++ [' '], .unquoted a.name a.value⟩]) before (before ++ a.written) := by
        cases hquoted : a.quoted with
        | true => exact .nil _ _
        | false =>
            refine .singleton (List.prefix_append _ _) ⟨a.name ++ '=' :: a.value, ?_, ?_⟩
            · simp [WrittenAttribute.written, Attribute.print, hquoted]
            · have hequals : ('=').utf8Size = 1 := rfl
              simp only [Defect.reach, Text.size_append, Text.size_cons, hequals]
              omega
      rw [attributeSites, hsplit]
      exact hfirst.append (ih _) (List.prefix_append _ _) (List.prefix_append _ _)

theorem inStretch_sites (before : Text) (p : Piece) :
    InStretch (p.sites before) before (before ++ p.written) := by
  have hampersand : ('&').utf8Size = 1 := rfl
  have hbracket : ('<').utf8Size = 1 := rfl
  cases p with
  | unterminated name =>
      refine .singleton (List.prefix_refl _) ⟨'&' :: (name ++ [' ']), rfl, ?_⟩
      simp only [Defect.reach, Text.size_append, Text.size_cons, hampersand]
      omega
  | ampersand =>
      refine .singleton (List.prefix_refl _) ⟨['&', ' '], rfl, ?_⟩
      simp only [Defect.reach, Text.size_cons, Text.size_nil, hampersand]
      omega
  | tag form name attributes =>
      have hfirst : InStretch (if form = .collapsed then [⟨before, .collapsed name⟩] else [])
          before (before ++ '<' :: name) := by
        cases form with
        | collapsed =>
            refine .singleton (List.prefix_refl _) ⟨'<' :: name, rfl, ?_⟩
            simp only [Defect.reach, Text.size_cons, hbracket]
            omega
        | _ => exact .nil _ _
      have hrest := inStretch_attributeSites (before ++ '<' :: name) attributes
      have hall := hfirst.append hrest (List.prefix_append _ _) (List.prefix_append _ _)
      refine ⟨hall.pairwise, hall.starts, fun s hs => (hall.ends s hs).extend ?_⟩
      cases form <;> simp [written]
  | _ => exact .nil _ _

/-- The sites in pieces come in reading order. -/
theorem inStretch_sitesAll (before : Text) (pieces : List Piece) :
    InStretch (sitesAll before pieces) before (before ++ writtenAll pieces) := by
  induction pieces generalizing before with
  | nil => exact .nil _ _
  | cons p rest ih =>
      rw [sitesAll, writtenAll_cons, ← List.append_assoc]
      exact (inStretch_sites before p).append (ih _) (List.prefix_append _ _)
        (List.prefix_append _ _)

end Piece

end MarkupRepair
