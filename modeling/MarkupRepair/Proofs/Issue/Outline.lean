import MarkupRepair.Proofs.Issue.Places
import MarkupRepair.Proofs.Markup.Insertion

/-!
# The balance of outlines

The balance reads the kinds and the names of the tags, and their places only to report them. So tags
of the same kinds and names have faults of the same kinds. An opening tag in front of its closing
tag has no fault, and closing tags for the open elements, from the innermost one on, leave nothing
open.
-/

namespace MarkupRepair

namespace Balance

section Outline

variable {f : TagToken → TagToken}

theorem unwind?_map (hf : ∀ tag, (f tag).outline = tag.outline) (name : Text)
    (stack : List TagToken) : unwind? name (stack.map f) =
      (unwind? name stack).map fun found => (found.1.map f, found.2.map f) := by
  induction stack with
  | nil => rfl
  | cons frame outer ih =>
      have hname : (f frame).name = frame.name := congrArg Prod.snd (hf frame)
      rw [List.map_cons, unwind?, unwind?, hname, ih]
      split
      · rfl
      · cases unwind? name outer <;> simp

/-- One tag does the same to the stack, and has faults of the same kinds, when tags are exchanged
for others of their kinds and names. -/
theorem step_map (hf : ∀ tag, (f tag).outline = tag.outline) (stack : List TagToken)
    (tag : TagToken) : (step (stack.map f) (f tag)).1 = (step stack tag).1.map f ∧
      (step (stack.map f) (f tag)).2.map (·.kind) = (step stack tag).2.map (·.kind) := by
  have hkind : (f tag).kind = tag.kind := congrArg Prod.fst (hf tag)
  have hname : ∀ tag, (f tag).name = tag.name := fun tag => congrArg Prod.snd (hf tag)
  unfold step
  rw [hkind, hname]
  cases tag.kind with
  | selfClosing =>
      refine ⟨rfl, ?_⟩
      dsimp only
      split <;> rfl
  | opening =>
      dsimp only
      split <;> exact ⟨rfl, rfl⟩
  | closing =>
      dsimp only
      split
      · exact ⟨rfl, rfl⟩
      · rw [unwind?_map hf]
        cases unwind? tag.name stack with
        | none => exact ⟨rfl, rfl⟩
        | some found =>
            refine ⟨rfl, ?_⟩
            simp [interrupted, hname, Function.comp_def]

theorem map_kind_faultsFrom_map (hf : ∀ tag, (f tag).outline = tag.outline)
    (stack tags : List TagToken) : (faultsFrom (stack.map f) (tags.map f)).map (·.kind) =
      (faultsFrom stack tags).map (·.kind) := by
  induction tags generalizing stack with
  | nil =>
      have hname : ∀ tag, (f tag).name = tag.name := fun tag => congrArg Prod.snd (hf tag)
      simp [faultsFrom, hname, ← List.map_reverse, Function.comp_def]
  | cons tag rest ih =>
      obtain ⟨hstack, hkinds⟩ := step_map hf stack tag
      rw [List.map_cons, faultsFrom_cons, faultsFrom_cons, List.map_append, List.map_append, hkinds, hstack, ih]

/-- A tag of a kind and a name at no place. -/
def ofOutline (outline : TagKind × Text) : TagToken :=
  ⟨outline.1, outline.2, ⟨0, 0⟩, ⟨0, 0⟩, []⟩

/-- Tags of the same kinds and names have faults of the same kinds. -/
theorem map_kind_faults_congr {tags tags' : List TagToken}
    (h : tags.map TagToken.outline = tags'.map TagToken.outline) :
    (faults tags).map (·.kind) = (faults tags').map (·.kind) := by
  have hf : ∀ tag : TagToken, (ofOutline tag.outline).outline = tag.outline := fun _ => rfl
  have hsame := congrArg (List.map ofOutline) h
  rw [List.map_map, List.map_map] at hsame
  have hleft := map_kind_faultsFrom_map (f := fun tag => ofOutline tag.outline) hf [] tags
  have hright := map_kind_faultsFrom_map (f := fun tag => ofOutline tag.outline) hf [] tags'
  exact hleft.symm.trans ((congrArg (fun tags => (faults tags).map (·.kind)) hsame).trans hright)

end Outline

variable {tag opener closer : TagToken} {name : Text} {before after stack closers : List TagToken}

/-- An opening tag in front of its closing tag leaves the stack as it is and has no fault. -/
theorem faultsFrom_pair (hopener : opener.outline = (.opening, name))
    (hcloser : closer.outline = (.closing, name)) (hvoid : isVoid name = false)
    (stack after : List TagToken) :
    faultsFrom stack (opener :: closer :: after) = faultsFrom stack after := by
  obtain ⟨hopens, rfl⟩ := Prod.mk.inj hopener
  obtain ⟨hcloses, hname⟩ := Prod.mk.inj hcloser
  have hopener : step stack opener = (opener :: stack, []) :=
    step_of_opening hopens (by simp [TagToken.isTracked, hopens, hvoid])
  have hcloser : step (opener :: stack) closer = (stack, []) :=
    step_of_closes_innermost hcloses hname (hname ▸ hvoid)
  rw [faultsFrom_cons, hopener, faultsFrom_cons, hcloser]
  rfl

/-- A self-closing container in place of its opening tag and its closing tag is one more fault, and
the only one. -/
theorem map_kind_faults_selfClosing (htag : tag.outline = (.selfClosing, name))
    (hopener : opener.outline = (.opening, name)) (hcloser : closer.outline = (.closing, name))
    (hcontainer : isContainer name = true) :
    ((faults (before ++ tag :: after)).map (·.kind)).Perm
      (.selfClosedContainer name ::
        (faults (before ++ opener :: closer :: after)).map (·.kind)) := by
  have hvoid := Piece.isVoid_of_isContainer hcontainer
  obtain ⟨hkind, rfl⟩ := Prod.mk.inj htag
  have htag : ∀ stack : List TagToken, step stack tag =
      (stack, [⟨.selfClosedContainer tag.name, tag.position⟩]) := fun stack => by
    simp only [step, hkind, hcontainer, if_true]
  rw [faults, faults, faultsFrom_append, faultsFrom_append, faultsFrom_pair hopener hcloser hvoid,
    faultsFrom, htag]
  simp only [List.map_append, List.map_cons]
  exact List.perm_middle

/-- Closing tags for the open elements, from the innermost one on, have no faults and leave nothing
open. -/
theorem faultsFrom_closers (hclosers : closers.map TagToken.outline =
      stack.map fun frame => (.closing, frame.name))
    (hvoid : ∀ frame ∈ stack, isVoid frame.name = false) : faultsFrom stack closers = [] := by
  induction stack generalizing closers with
  | nil =>
      obtain rfl := List.map_eq_nil_iff.mp hclosers
      rfl
  | cons frame stack ih =>
      obtain ⟨closer, closers, rfl, houtline, hrest⟩ := List.map_eq_cons_iff.mp hclosers
      rw [List.forall_mem_cons] at hvoid
      obtain ⟨hkind, hname⟩ := Prod.mk.inj houtline
      have hstep : step (frame :: stack) closer = (stack, []) :=
        step_of_closes_innermost hkind hname (hname ▸ hvoid.1)
      rw [faultsFrom_cons, hstep]
      exact ih hrest hvoid.2

/-- With closing tags behind them for the elements that they leave open, tags have the faults that
they reveal one by one. -/
theorem map_kind_faults_closers {tags tags' : List TagToken}
    (h : tags'.map TagToken.outline =
      tags.map TagToken.outline ++ (openAtEnd tags).map fun frame => (.closing, frame.name)) :
    (faults tags').map (·.kind) = (revealed [] tags).map (·.kind) := by
  let closers := (openAtEnd tags).map fun frame => ofOutline (.closing, frame.name)
  have hclosers : closers.map TagToken.outline =
      (openAtEnd tags).map fun frame => (.closing, frame.name) := by
    rw [List.map_map]
    rfl
  have houtline : tags'.map TagToken.outline = (tags ++ closers).map TagToken.outline := by
    rw [h, List.map_append, hclosers]
  have hnone : faultsFrom (openAtEnd tags) closers = [] :=
    faultsFrom_closers hclosers fun _ => isVoid_of_mem_openAtEnd
  have hfaults : faults (tags ++ closers) =
      revealed [] tags ++ faultsFrom (openAtEnd tags) closers :=
    faultsFrom_append [] tags closers
  rw [map_kind_faults_congr houtline, hfaults, hnone, List.append_nil]

end Balance

end MarkupRepair
