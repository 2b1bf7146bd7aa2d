import MarkupRepair.Proofs.Issue.Analysis

/-!
# Well-nested tags

The tags that the balance follows are the opening and closing tags of elements that are not void. It
finds no fault with them exactly when they are well nested: nothing at all, or an opening tag, well
nested tags, the closing tag of the same name, and well nested tags again.

With elements open already, the tags have to close all of them, from the innermost one to the
outermost one, with well-nested tags before, between and after the closing tags. Reading one tag
turns what has to be closed before it into what has to be closed after it.
-/

namespace MarkupRepair

/-- Whether the balance follows a tag: it opens or closes an element that is not void. -/
def TagToken.isTracked (tag : TagToken) : Bool := tag.kind != .selfClosing && !isVoid tag.name

/-- Whether a kind is that of a tag without its counterpart. -/
def IssueKind.isUnclosed : IssueKind → Bool
  | .unclosedTag _ _ => true
  | _ => false

/-- The issues of kinds that the balance finds are those of its faults. -/
theorem Scan.perm_filter_balance (s : Scan) {p : IssueKind → Bool}
    (hp : ∀ kind, p kind = true → kind.foundBy = .balance) : (s.issues.filter (p ·.kind)).Perm
      (((Balance.faults s.tags).filter (p ·.kind)).map
        fun fault => s.issue fault.kind (some fault.position)) := by
  have hperm := s.perm_filter_of_foundBy hp
  rw [foundBy, balanceIssues, List.filter_map] at hperm
  exact hperm

/-- The kinds of the issues that the balance finds are those of its faults. -/
theorem Scan.perm_map_kind_balance (s : Scan) {p : IssueKind → Bool}
    (hp : ∀ kind, p kind = true → kind.foundBy = .balance) :
    ((s.issues.filter (p ·.kind)).map (·.kind)).Perm
      (((Balance.faults s.tags).map (·.kind)).filter p) := by
  have hperm := (s.perm_filter_balance hp).map (·.kind)
  rw [List.map_map] at hperm
  rw [List.filter_map]
  exact hperm

/-- The balance finds the tags without their counterpart. -/
theorem IssueKind.foundBy_of_isUnclosed {kind : IssueKind} (h : kind.isUnclosed = true) :
    kind.foundBy = .balance := by
  cases kind with
  | unclosedTag => rfl
  | _ => cases h

/-- The issues about tags without their counterpart are those that the balance finds. -/
theorem Scan.perm_filter_isUnclosed (s : Scan) : (s.issues.filter (·.kind.isUnclosed)).Perm
    (((Balance.faults s.tags).filter (·.kind.isUnclosed)).map
      fun fault => s.issue fault.kind (some fault.position)) :=
  s.perm_filter_balance fun _ => IssueKind.foundBy_of_isUnclosed

namespace Balance

/-- The words of the grammar `S ::= empty | Open(n) S Close(n) S`. -/
inductive WellNested : List TagToken → Prop where
  /-- There are no tags. -/
  | nil : WellNested []
  /-- An element with what stands in it, and what stands after it. -/
  | element {opener closer : TagToken} {inner rest : List TagToken}
      (hopener : opener.kind = .opening) (hcloser : closer.kind = .closing)
      (hname : closer.name = opener.name) (hinner : WellNested inner) (hrest : WellNested rest) :
      WellNested (opener :: (inner ++ closer :: rest))

/-- Tags that close open elements, the innermost one first, and are well nested otherwise. -/
inductive ClosesAll : List TagToken → List TagToken → Prop where
  /-- No element is open. -/
  | nil {tags : List TagToken} (h : WellNested tags) : ClosesAll [] tags
  /-- The innermost open element is closed, and then those outside of it. -/
  | cons {frame closer : TagToken} {stack inner rest : List TagToken} (hinner : WellNested inner)
      (hcloser : closer.kind = .closing) (hname : closer.name = frame.name)
      (hrest : ClosesAll stack rest) : ClosesAll (frame :: stack) (inner ++ closer :: rest)

variable {stack tags : List TagToken} {tag : TagToken}

/-- Elements can stay open only when there is nothing to close. -/
theorem closesAll_nil_iff : ClosesAll stack [] ↔ stack = [] := by
  constructor
  · intro h
    obtain ⟨word, hword⟩ : ∃ word : List TagToken, word = [] := ⟨_, rfl⟩
    rw [← hword] at h
    cases h with
    | nil => rfl
    | cons => simp at hword
  · rintro rfl
    exact .nil .nil

/-- An opening tag has to be closed before the elements open so far. -/
theorem closesAll_opening_iff (htag : tag.kind = .opening) :
    ClosesAll stack (tag :: tags) ↔ ClosesAll (tag :: stack) tags := by
  constructor
  · intro h
    generalize hword : tag :: tags = word at h
    cases h with
    | nil h =>
        cases h with
        | nil => cases hword
        | element _ hcloser hname hinner hrest =>
            obtain ⟨rfl, rfl⟩ := List.cons.inj hword
            exact .cons hinner hcloser hname (.nil hrest)
    | cons hinner hcloser hname hrest =>
        cases hinner with
        | nil =>
            obtain ⟨rfl, -⟩ := List.cons.inj hword
            rw [htag] at hcloser
            cases hcloser
        | element _ hcloser' hname' hinner' hrest' =>
            rw [List.cons_append, List.append_assoc, List.cons_append] at hword
            obtain ⟨rfl, rfl⟩ := List.cons.inj hword
            exact .cons hinner' hcloser' hname' (.cons hrest' hcloser hname hrest)
  · intro h
    generalize hopen : tag :: stack = frames at h
    cases h with
    | nil => cases hopen
    | cons hinner hcloser hname hrest =>
        obtain ⟨rfl, rfl⟩ := List.cons.inj hopen
        cases hrest with
        | nil hrest => exact .nil (.element htag hcloser hname hinner hrest)
        | cons hinner' hcloser' hname' hrest' =>
            have h :=
              ClosesAll.cons (.element htag hcloser hname hinner hinner') hcloser' hname' hrest'
            rwa [List.cons_append, List.append_assoc, List.cons_append] at h

/-- A closing tag has to close the innermost open element. -/
theorem closesAll_closing_iff (htag : tag.kind = .closing) : ClosesAll stack (tag :: tags) ↔
    ∃ frame outer, stack = frame :: outer ∧ tag.name = frame.name ∧ ClosesAll outer tags := by
  constructor
  · intro h
    generalize hword : tag :: tags = word at h
    cases h with
    | nil h =>
        cases h with
        | nil => cases hword
        | element hopener =>
            obtain ⟨rfl, -⟩ := List.cons.inj hword
            rw [htag] at hopener
            cases hopener
    | cons hinner hcloser hname hrest =>
        cases hinner with
        | nil =>
            obtain ⟨rfl, rfl⟩ := List.cons.inj hword
            exact ⟨_, _, rfl, hname, hrest⟩
        | element hopener =>
            obtain ⟨rfl, -⟩ := List.cons.inj hword
            rw [htag] at hopener
            cases hopener
  · rintro ⟨frame, outer, rfl, hname, hrest⟩
    exact .cons .nil htag hname hrest

/-- A tag without its counterpart is reported where an element is interrupted. -/
theorem filter_interrupted (closer : TagToken) (inner : List TagToken) :
    (inner.map (interrupted closer)).filter (·.kind.isUnclosed) =
      inner.map (interrupted closer) := by
  rw [List.filter_eq_self]
  intro fault hfault
  obtain ⟨frame, -, rfl⟩ := List.mem_map.mp hfault
  rfl

/-- An open element is found at once exactly when no other element is open inside of it. -/
theorem unwind?_eq_some_nil_iff {name : Text} {outer : List TagToken} :
    unwind? name stack = some (outer, []) ↔
      ∃ frame, stack = frame :: outer ∧ frame.name = name := by
  cases stack with
  | nil => simp [unwind?]
  | cons top rest =>
      by_cases hname : top.name = name
      · simp only [unwind?, hname, if_true, Option.some.injEq, Prod.mk.injEq, and_true,
          List.cons.injEq]
        exact ⟨fun h => ⟨top, ⟨rfl, h⟩, hname⟩, fun ⟨_, ⟨_, h⟩, _⟩ => h⟩
      · simp [unwind?, hname]

/-- A tag that the balance does not follow opens and closes nothing. -/
theorem step_of_not_isTracked (h : tag.isTracked = false) :
    (step stack tag).1 = stack ∧ (step stack tag).2.filter (·.kind.isUnclosed) = [] := by
  unfold step
  cases hkind : tag.kind with
  | selfClosing =>
      refine ⟨rfl, ?_⟩
      dsimp only
      split <;> rfl
  | opening | closing =>
      have hvoid : isVoid tag.name = true := by
        simpa [TagToken.isTracked, hkind] using h
      simp [hvoid]

/-- An opening tag opens an element. -/
theorem step_of_opening (hkind : tag.kind = .opening) (h : tag.isTracked = true) :
    step stack tag = (tag :: stack, []) := by
  have hvoid : isVoid tag.name = false := by
    simpa [TagToken.isTracked, hkind] using h
  simp [step, hkind, hvoid]

/-- A closing tag closes an open element and interrupts those inside of it, or it is unexpected. -/
theorem step_of_closing (hkind : tag.kind = .closing) (h : tag.isTracked = true) :
    step stack tag = match unwind? tag.name stack with
      | some (outer, inner) => (outer, inner.map (interrupted tag))
      | none => (stack, [⟨.unclosedTag tag.name .unexpectedClose, tag.position⟩]) := by
  have hvoid : isVoid tag.name = false := by
    simpa [TagToken.isTracked, hkind] using h
  cases hunwind : unwind? tag.name stack with
  | none => simp [step, hkind, hvoid, hunwind]
  | some found => simp [step, hkind, hvoid, hunwind]

/-- A closing tag of the innermost element takes it from the stack and has no fault. -/
theorem step_of_closes_innermost (hkind : tag.kind = .closing) {frame : TagToken}
    (hname : tag.name = frame.name) (hvoid : isVoid tag.name = false) :
    step (frame :: stack) tag = (stack, []) := by
  have hunwind : unwind? tag.name (frame :: stack) = some (stack, []) :=
    unwind?_eq_some_nil_iff.mpr ⟨frame, rfl, hname.symm⟩
  rw [step_of_closing hkind (by simp [TagToken.isTracked, hkind, hvoid]), hunwind]
  rfl

/-- The balance finds no tag without its counterpart exactly when the tags it follows close the
elements that are open before them and are well nested otherwise. -/
theorem filter_faultsFrom_eq_nil_iff : (faultsFrom stack tags).filter (·.kind.isUnclosed) = [] ↔
    ClosesAll stack (tags.filter TagToken.isTracked) := by
  induction tags generalizing stack with
  | nil =>
      rw [List.filter_nil, closesAll_nil_iff, List.filter_eq_nil_iff]
      refine ⟨fun h => ?_, fun h => by simp [faultsFrom, h]⟩
      cases stack with
      | nil => rfl
      | cons frame rest =>
          have hframe : frame ∈ (frame :: rest).reverse := List.mem_reverse.mpr List.mem_cons_self
          exact absurd rfl (h _ (List.mem_map_of_mem hframe))
  | cons tag tags ih =>
      rw [faultsFrom_cons, List.filter_append, List.append_eq_nil_iff, ih]
      by_cases htracked : tag.isTracked = true
      case neg =>
        rw [Bool.not_eq_true] at htracked
        obtain ⟨hstack, hnone⟩ : (step stack tag).1 = stack ∧
            (step stack tag).2.filter (·.kind.isUnclosed) = [] := step_of_not_isTracked htracked
        rw [hstack, hnone, List.filter_cons_of_neg (by simp [htracked])]
        exact and_iff_right rfl
      case pos =>
        rw [List.filter_cons_of_pos htracked]
        cases hkind : tag.kind with
        | selfClosing => simp [TagToken.isTracked, hkind] at htracked
        | opening =>
            rw [step_of_opening hkind htracked, closesAll_opening_iff hkind]
            exact and_iff_right rfl
        | closing =>
            rw [step_of_closing hkind htracked, closesAll_closing_iff hkind]
            cases hunwind : unwind? tag.name stack with
            | none =>
                constructor
                · rintro ⟨h, -⟩
                  exact absurd rfl (List.filter_eq_nil_iff.mp h _ (List.mem_singleton.mpr rfl))
                · rintro ⟨frame, outer, rfl, hname, -⟩
                  simp [unwind?, hname] at hunwind
            | some found =>
                obtain ⟨outer, inner⟩ := found
                rw [filter_interrupted, List.map_eq_nil_iff]
                constructor
                · rintro ⟨rfl, h⟩
                  obtain ⟨frame, rfl, hname⟩ := unwind?_eq_some_nil_iff.mp hunwind
                  exact ⟨frame, outer, rfl, hname.symm, h⟩
                · rintro ⟨frame, outer', rfl, hname, h⟩
                  have hfound : unwind? tag.name (frame :: outer') = some (outer', []) :=
                    unwind?_eq_some_nil_iff.mpr ⟨frame, rfl, hname.symm⟩
                  rw [hunwind] at hfound
                  obtain ⟨rfl, rfl⟩ := Prod.mk.inj (Option.some.inj hfound)
                  exact ⟨rfl, h⟩

/-- The analysis of a scan finds no tag without its counterpart exactly when the opening and closing
tags of elements that are not void are well nested. -/
theorem forall_issues_not_isUnclosed_iff (s : Scan) :
    (∀ i ∈ s.issues, i.kind.isUnclosed = false) ↔
      WellNested (s.tags.filter TagToken.isTracked) := by
  have hissues : (∀ i ∈ s.issues, i.kind.isUnclosed = false) ↔
      s.issues.filter (·.kind.isUnclosed) = [] := by
    simp only [List.filter_eq_nil_iff, Bool.not_eq_true]
  have hclosesAll : ∀ word, ClosesAll [] word ↔ WellNested word := fun word =>
    ⟨fun h => by cases h with | nil h => exact h, .nil⟩
  rw [hissues, ← List.length_eq_zero_iff, s.perm_filter_isUnclosed.length_eq, List.length_map,
    List.length_eq_zero_iff, ← hclosesAll]
  exact filter_faultsFrom_eq_nil_iff

end Balance

end MarkupRepair
