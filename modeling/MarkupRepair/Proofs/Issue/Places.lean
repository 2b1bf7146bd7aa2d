import MarkupRepair.Proofs.Issue.Pairing
import MarkupRepair.Proofs.Markup.Sections
import MarkupRepair.Proofs.Markup.Tokens
import MarkupRepair.Proofs.Text.Lines

/-!
# The places of the open elements

The scan lists the tags in the order of their places, and the balance puts each element that it
opens on top of those opened before. So the elements that are open at the end of a document stand
on the stack from the last place to the first one, and they are what the balance reports as left
open.
-/

namespace MarkupRepair

/-- Whether a position comes before another one. -/
def Position.Before (p q : Position) : Prop :=
  p.line < q.line ∨ p.line = q.line ∧ p.column < q.column

/-- A text ends after each beginning of it that is shorter. -/
theorem Text.endPosition_before_append (a : Text) {b : Text} (hb : b ≠ []) :
    (endPosition a).Before (endPosition (a ++ b)) := by
  by_cases hline : '\n' ∈ b
  · exact .inl (line_lt_endPosition_append hline)
  · have hsize : size b ≠ 0 := fun h => hb (eq_nil_of_size_eq_zero h)
    rw [endPosition_append_of_not_mem hline]
    exact .inr ⟨rfl, by simp only; omega⟩

/-- Of two beginnings of a text the shorter one ends first. -/
theorem Text.endPosition_before_of_size_lt {u v w z : Text} (h : u ++ w = v ++ z)
    (hlt : size u < size v) : (endPosition u).Before (endPosition v) := by
  rcases List.append_eq_append_iff.mp h with ⟨m, rfl, -⟩ | ⟨m, rfl, -⟩
  · refine endPosition_before_append u fun hm => ?_
    rw [hm, List.append_nil] at hlt
    exact Nat.lt_irrefl _ hlt
  · rw [size_append] at hlt
    omega

/-- The angle bracket of a scanned tag is plain. -/
theorem Segment.exists_plain_of_mem_all {t : Text} {o : Nat} {tag : TagText}
    (h : (o, tag) ∈ TagText.all 0 (mask t)) :
    ∃ l r, WellCut (l ++ plain '<' :: r) ∧ t = writtenAll (l ++ plain '<' :: r) ∧
      o = Text.size (writtenAll l) ∧ TagText.read? (maskedAll r) = some tag := by
  obtain ⟨a, b, hmask, rfl, hstart⟩ := TagText.exists_of_mem_all h
  obtain ⟨r', rfl, hread⟩ := TagText.exists_read?_of_atStart? hstart
  obtain ⟨segments, hcut, rfl, -⟩ := exists_wellCut t
  rw [hcut.mask_eq] at hmask
  obtain ⟨l, r, rfl, rfl, rfl⟩ := exists_plain_of_maskedAll hmask (by decide) (by decide)
  exact ⟨l, r, hcut, rfl, by rw [Nat.zero_add, size_maskedAll], hread⟩

/-- A tag is found at the end of a beginning of the text, and has the position of that end. -/
theorem exists_position_ofText {t : Text} {found : Nat × TagText}
    (h : found ∈ TagText.all 0 (mask t)) :
    ∃ u w, t = u ++ w ∧ found.1 = Text.size u ∧
      (TagToken.ofText (LineIndex.ofText t) found).position = Text.endPosition u := by
  obtain ⟨o, tag⟩ := found
  obtain ⟨l, r, -, rfl, rfl, -⟩ := Segment.exists_plain_of_mem_all h
  refine ⟨Segment.writtenAll l, _, Segment.writtenAll_append l _, rfl, ?_⟩
  rw [Segment.writtenAll_append]
  exact LineIndex.position_ofText_append _ _

/-- The tags of a document are listed in the order of their positions. -/
theorem pairwise_position_tags (t : Text) :
    (scan t).tags.Pairwise fun a b => a.position.Before b.position := by
  refine List.pairwise_map.mpr ((TagText.pairwise_all 0 (mask t)).imp_of_mem ?_)
  intro x y hx hy hlt
  obtain ⟨u, w, ht, hu, hposition⟩ := exists_position_ofText hx
  obtain ⟨v, z, ht', hv, hposition'⟩ := exists_position_ofText hy
  rw [hposition, hposition']
  exact Text.endPosition_before_of_size_lt (ht.symm.trans ht') (by omega)

/-- Whether a kind is that of an element that is open when the document ends. -/
def IssueKind.isLeftOpen : IssueKind → Bool
  | .unclosedTag _ .endOfDocument => true
  | _ => false

namespace Balance

variable {stack tags : List TagToken} {tag : TagToken}

/-- A tag only takes elements from the stack, unless it is opened itself. -/
theorem reverse_step_sublist (stack : List TagToken) (tag : TagToken) :
    (step stack tag).1.reverse.Sublist (stack.reverse ++ [tag]) := by
  have hkept : stack.reverse.Sublist (stack.reverse ++ [tag]) := List.sublist_append_left _ _
  unfold step
  split
  next => exact hkept
  next =>
    split
    · exact hkept
    · rw [List.reverse_cons]
  next =>
    split
    · exact hkept
    · split
      next outer inner hunwind =>
        obtain ⟨frame, -, rfl⟩ := eq_of_unwind? hunwind
        have houter : outer.Sublist (inner.reverse ++ frame :: outer) :=
          (List.sublist_cons_self frame outer).trans (List.sublist_append_right _ _)
        exact houter.reverse.trans hkept
      next => exact hkept

/-- The elements that are open after a sequence of tags were opened in its order. -/
theorem reverse_openAtEnd_sublist (tags : List TagToken) :
    (openAtEnd tags).reverse.Sublist tags := by
  have hrun : ∀ (tags stack : List TagToken),
      (tags.foldl (fun stack tag => (step stack tag).1) stack).reverse.Sublist
        (stack.reverse ++ tags) := by
    intro tags
    induction tags with
    | nil => exact fun stack => List.sublist_append_left _ _
    | cons tag rest ih =>
        intro stack
        have hstep := (reverse_step_sublist stack tag).append (List.Sublist.refl rest)
        rw [List.append_assoc, List.singleton_append] at hstep
        exact (ih _).trans hstep
  exact hrun tags []

/-- The faults that a tag can have. -/
inductive Blames (tag : TagToken) : BalanceFault → Prop
  /-- A closing tag closes nothing. -/
  | closing (hkind : tag.kind = .closing) :
      Blames tag ⟨.unclosedTag tag.name .unexpectedClose, tag.position⟩
  /-- An opening tag is not closed. -/
  | opening (hkind : tag.kind = .opening) (cause : UnclosedCause)
      (hcause : cause ≠ .unexpectedClose) :
      Blames tag ⟨.unclosedTag tag.name cause, tag.position⟩
  /-- A container closes itself. -/
  | container (hkind : tag.kind = .selfClosing) (hcontainer : isContainer tag.name = true) :
      Blames tag ⟨.selfClosedContainer tag.name, tag.position⟩

/-- What is open after a tag are opening tags among those read so far, and the faults that the tag
reveals are those of tags among them. -/
theorem step_blames {all : List TagToken} (hstack : ∀ frame ∈ stack, frame ∈ all ∧
    frame.kind = .opening) (htag : tag ∈ all) :
    (∀ frame ∈ (step stack tag).1, frame ∈ all ∧ frame.kind = .opening) ∧
      ∀ fault ∈ (step stack tag).2, ∃ other ∈ all, Blames other fault := by
  unfold step
  split
  next hkind =>
    refine ⟨hstack, fun fault hfault => ?_⟩
    dsimp only at hfault
    split at hfault
    next hcontainer =>
      rw [List.mem_singleton.mp hfault]
      exact ⟨tag, htag, .container hkind hcontainer⟩
    next => cases hfault
  next hkind =>
    split
    · exact ⟨hstack, fun _ h => by cases h⟩
    · exact ⟨List.forall_mem_cons.mpr ⟨⟨htag, hkind⟩, hstack⟩, fun _ h => by cases h⟩
  next hkind =>
    split
    · exact ⟨hstack, fun _ h => by cases h⟩
    · split
      next outer inner hunwind =>
        obtain ⟨frame, -, rfl⟩ := eq_of_unwind? hunwind
        rw [List.forall_mem_append, List.forall_mem_cons] at hstack
        refine ⟨hstack.2.2, fun fault hfault => ?_⟩
        obtain ⟨other, hother, rfl⟩ := List.mem_map.mp hfault
        obtain ⟨hmem, hopening⟩ := hstack.1 other (List.mem_reverse.mpr hother)
        exact ⟨other, hmem, .opening hopening _ (by simp)⟩
      next =>
        refine ⟨hstack, fun fault hfault => ?_⟩
        rw [List.mem_singleton.mp hfault]
        exact ⟨tag, htag, .closing hkind⟩

/-- Every fault of the remaining tags is that of a tag. -/
theorem exists_blames_of_mem_faultsFrom {all : List TagToken} {fault : BalanceFault}
    (hstack : ∀ frame ∈ stack, frame ∈ all ∧ frame.kind = .opening)
    (htags : ∀ tag ∈ tags, tag ∈ all) (h : fault ∈ faultsFrom stack tags) :
    ∃ tag ∈ all, Blames tag fault := by
  induction tags generalizing stack with
  | nil =>
      obtain ⟨frame, hframe, rfl⟩ := List.mem_map.mp h
      obtain ⟨hmem, hopening⟩ := hstack frame (List.mem_reverse.mp hframe)
      exact ⟨frame, hmem, .opening hopening _ (by simp)⟩
  | cons tag rest ih =>
      rw [List.forall_mem_cons] at htags
      obtain ⟨hnext, hfaults⟩ := step_blames hstack htags.1
      rcases List.mem_append.mp h with h | h
      · exact hfaults fault h
      · exact ih hnext htags.2 h

/-- Every fault of a sequence of tags is that of one of them. -/
theorem exists_blames_of_mem_faults {fault : BalanceFault} (h : fault ∈ faults tags) :
    ∃ tag ∈ tags, Blames tag fault :=
  exists_blames_of_mem_faultsFrom (by simp) (fun _ h => h) h

/-- The faults that a sequence of tags reveals one by one, given the elements open before them. -/
def revealed (stack : List TagToken) : List TagToken → List BalanceFault
  | [] => []
  | tag :: rest => (step stack tag).2 ++ revealed (step stack tag).1 rest

/-- The faults of further tags come after those that the first tags reveal. -/
theorem faultsFrom_append (stack a b : List TagToken) : faultsFrom stack (a ++ b) =
    revealed stack a ++ faultsFrom (a.foldl (fun stack tag => (step stack tag).1) stack) b := by
  induction a generalizing stack with
  | nil => rfl
  | cons tag a ih =>
      rw [List.cons_append, faultsFrom_cons, ih, revealed, List.append_assoc, List.foldl_cons]

/-- The faults of all tags are those that they reveal and those of the elements on the stack in the
end. -/
theorem faults_eq (tags : List TagToken) :
    faults tags = revealed [] tags ++ (openAtEnd tags).reverse.map leftOpen := by
  have hfaults := faultsFrom_append [] tags []
  rw [List.append_nil] at hfaults
  exact hfaults

/-- No tag reveals that an element is left open. -/
theorem filter_isLeftOpen_revealed (stack tags : List TagToken) :
    (revealed stack tags).filter (·.kind.isLeftOpen) = [] := by
  have hstep : ∀ (stack : List TagToken) (tag : TagToken), ∀ fault ∈ (step stack tag).2,
      ¬fault.kind.isLeftOpen = true := by
    intro stack tag fault hfault
    unfold step at hfault
    split at hfault
    next =>
      dsimp only at hfault
      split at hfault
      · rw [List.mem_singleton.mp hfault]
        exact Bool.false_ne_true
      · cases hfault
    next => split at hfault <;> cases hfault
    next =>
      split at hfault
      · cases hfault
      · split at hfault
        next =>
          obtain ⟨frame, -, rfl⟩ := List.mem_map.mp hfault
          exact Bool.false_ne_true
        next =>
          rw [List.mem_singleton.mp hfault]
          exact Bool.false_ne_true
  induction tags generalizing stack with
  | nil => rfl
  | cons tag rest ih =>
      rw [revealed, List.filter_append, ih, List.append_nil]
      exact List.filter_eq_nil_iff.mpr (hstep stack tag)

/-- The elements left open are those that are on the stack in the end. -/
theorem filter_isLeftOpen_faults (tags : List TagToken) :
    (faults tags).filter (·.kind.isLeftOpen) = (openAtEnd tags).reverse.map leftOpen := by
  rw [faults_eq, List.filter_append, filter_isLeftOpen_revealed, List.nil_append]
  refine List.filter_eq_self.mpr fun fault hfault => ?_
  obtain ⟨frame, -, rfl⟩ := List.mem_map.mp hfault
  rfl

/-- The elements on the stack are not void. -/
theorem isVoid_of_mem_openAtEnd {frame : TagToken} (h : frame ∈ openAtEnd tags) :
    isVoid frame.name = false := by
  have hstep : ∀ (stack : List TagToken) (tag : TagToken),
      (∀ frame ∈ stack, isVoid frame.name = false) →
        ∀ frame ∈ (step stack tag).1, isVoid frame.name = false := by
    intro stack tag hstack
    unfold step
    split
    next => exact hstack
    next =>
      split
      · exact hstack
      next hvoid => exact List.forall_mem_cons.mpr ⟨by simpa using hvoid, hstack⟩
    next =>
      split
      · exact hstack
      · split
        next outer inner hunwind =>
          obtain ⟨frame, -, rfl⟩ := eq_of_unwind? hunwind
          exact fun other hother =>
            hstack other (List.mem_append_right _ (List.mem_cons_of_mem _ hother))
        next => exact hstack
  have hrun : ∀ (tags stack : List TagToken), (∀ frame ∈ stack, isVoid frame.name = false) →
      ∀ frame ∈ tags.foldl (fun stack tag => (step stack tag).1) stack,
        isVoid frame.name = false := by
    intro tags
    induction tags with
    | nil => exact fun stack hstack => hstack
    | cons tag rest ih => exact fun stack hstack => ih _ (hstep stack tag hstack)
  exact hrun tags [] (by simp) frame h

end Balance

/-- The issues of elements left open are those of the elements on the stack in the end. -/
theorem Scan.perm_filter_isLeftOpen (s : Scan) : (s.issues.filter (·.kind.isLeftOpen)).Perm
    ((Balance.openAtEnd s.tags).reverse.map fun frame =>
      s.issue (.unclosedTag frame.name .endOfDocument) (some frame.position)) := by
  have hkind : ∀ kind : IssueKind, (kind.isLeftOpen && kind.isUnclosed) = kind.isLeftOpen := by
    intro kind
    cases kind with
    | unclosedTag name cause => cases cause <;> rfl
    | _ => rfl
  have hperm := s.perm_filter_isUnclosed.filter (·.kind.isLeftOpen)
  rw [List.filter_filter, List.filter_map, List.filter_filter] at hperm
  simp only [Function.comp_def, issue, classify, hkind] at hperm
  rw [Balance.filter_isLeftOpen_faults, List.map_map] at hperm
  exact hperm

/-- The elements that are open at the end of a document stand on the stack from the last position
to the first one. -/
theorem pairwise_position_openAtEnd (t : Text) :
    (Balance.openAtEnd (scan t).tags).Pairwise fun a b => b.position.Before a.position := by
  have hordered := (pairwise_position_tags t).sublist (Balance.reverse_openAtEnd_sublist _)
  exact List.pairwise_reverse.mp hordered

end MarkupRepair
