import MarkupRepair.Proofs.Markup.Sections

/-!
# Sections between tags

The angle brackets outside of comments and CDATA sections and the sections themselves are the
landmarks of a text. A section stands between tags when the bracket before it is no opening one and
the bracket after it no closing one. Text between the landmarks can be exchanged without a change
to the sections, and so can tags, as long as no section is cut.
-/

namespace MarkupRepair

/-- What the place of a section is read off: the angle brackets that are plain, and the sections. -/
inductive Landmark where
  | opening
  | closing
  | hidden
  deriving DecidableEq, Repr

namespace Landmark

/-- The landmark that a marked character is or begins. -/
def ofMarked? : Char × Mark → Option Landmark
  | (c, .plain) => if c = '<' then some opening else if c = '>' then some closing else none
  | (_, .opens) => some hidden
  | (_, .within) => none

/-- Whether two landmarks in a row leave the sections outside of the tags. -/
def MayPrecede : Landmark → Landmark → Prop
  | opening, hidden => False
  | hidden, closing => False
  | _, _ => True

instance : DecidableRel MayPrecede := by
  intro a b
  cases a <;> cases b <;> unfold MayPrecede <;> infer_instance

theorem mayPrecede_opening (a : Landmark) : a.MayPrecede opening := by
  cases a <;> trivial

theorem closing_mayPrecede (b : Landmark) : closing.MayPrecede b := by
  cases b <;> trivial

/-- Brackets may stand in any order. -/
theorem isChain_of_not_mem {marks : List Landmark} (h : hidden ∉ marks) :
    marks.IsChain MayPrecede := by
  rw [List.isChain_iff_forall_rel_of_append_cons_cons]
  rintro a b l r rfl
  simp only [List.mem_append, List.mem_cons, not_or] at h
  cases a with
  | hidden => exact absurd rfl h.2.1
  | opening =>
      cases b with
      | hidden => exact absurd rfl h.2.2.1
      | _ => trivial
  | closing => exact closing_mayPrecede b

/-- Brackets that an opening and a closing one enclose can stand anywhere. -/
theorem isChain_exchange {l marks marks' r : List Landmark}
    (h : (l ++ (marks ++ r)).IsChain MayPrecede) (hhidden : hidden ∉ marks')
    (hhead : marks'.head? = some opening) (hlast : marks'.getLast? = some closing) :
    (l ++ (marks' ++ r)).IsChain MayPrecede := by
  rw [List.isChain_append, List.isChain_append] at h
  obtain ⟨hl, ⟨-, hr, -⟩, -⟩ := h
  rw [List.isChain_append, List.isChain_append]
  refine ⟨hl, ⟨isChain_of_not_mem hhidden, hr, ?_⟩, ?_⟩
  · intro x hx y _
    obtain rfl := Option.some.inj (hlast.symm.trans hx)
    exact closing_mayPrecede y
  · intro x _ y hy
    rw [List.head?_append, hhead] at hy
    obtain rfl := Option.some.inj hy
    exact mayPrecede_opening x

end Landmark

/-- The landmarks of a text in order. -/
def landmarks (t : Text) : List Landmark := (t.zip (marks t)).filterMap Landmark.ofMarked?

/-- Whether every section of a text stands between tags. -/
def BetweenTags (t : Text) : Prop := (landmarks t).IsChain Landmark.MayPrecede

instance : DecidablePred BetweenTags :=
  fun t => inferInstanceAs (Decidable ((landmarks t).IsChain Landmark.MayPrecede))

/-- The landmarks of plain text. -/
def brackets (t : Text) : List Landmark := t.filterMap fun c => Landmark.ofMarked? (c, .plain)

section Brackets

variable {t : Text} {c : Char}

@[simp] theorem brackets_nil : brackets [] = [] := rfl

@[simp] theorem brackets_append (a b : Text) : brackets (a ++ b) = brackets a ++ brackets b :=
  List.filterMap_append

theorem brackets_opening_cons (t : Text) : brackets ('<' :: t) = .opening :: brackets t := rfl

theorem brackets_closing_cons (t : Text) : brackets ('>' :: t) = .closing :: brackets t := rfl

theorem brackets_cons_of_ne (hopening : c ≠ '<') (hclosing : c ≠ '>') (t : Text) :
    brackets (c :: t) = brackets t := by
  simp [brackets, Landmark.ofMarked?, hopening, hclosing]

/-- A text without angle brackets has no landmarks. -/
theorem brackets_eq_nil (hopening : '<' ∉ t) (hclosing : '>' ∉ t) : brackets t = [] := by
  rw [brackets, List.filterMap_eq_nil_iff]
  intro c hc
  have h₁ : c ≠ '<' := fun h => hopening (h ▸ hc)
  have h₂ : c ≠ '>' := fun h => hclosing (h ▸ hc)
  simp [Landmark.ofMarked?, h₁, h₂]

/-- The first landmark of a text up to its first bracket that closes. -/
theorem head?_brackets_of_not_mem (h : '<' ∉ t) (rest : Text) :
    (brackets (t ++ '>' :: rest)).head? = some .closing := by
  induction t with
  | nil => rfl
  | cons c r ih =>
      rw [List.mem_cons, not_or] at h
      by_cases hc : c = '>'
      · rw [hc, List.cons_append, brackets_closing_cons, List.head?_cons]
      · rw [List.cons_append, brackets_cons_of_ne (Ne.symm h.1) hc, ih h.2]

theorem hidden_not_mem_brackets (t : Text) : Landmark.hidden ∉ brackets t := by
  intro h
  obtain ⟨c, -, hc⟩ := List.mem_filterMap.mp h
  simp only [Landmark.ofMarked?] at hc
  split at hc
  · cases hc
  · split at hc <;> cases hc

end Brackets

namespace Segment

/-- The landmark that a segment is. -/
def landmark? : Segment → Option Landmark
  | plain c => Landmark.ofMarked? (c, .plain)
  | hidden _ => some .hidden

variable {segments l r : List Segment} {a b x y : Text} {d : Char}

theorem filterMap_landmark?_map_plain (t : Text) :
    (t.map plain).filterMap landmark? = brackets t := by
  rw [List.filterMap_map]
  rfl

/-- The landmarks of a text are those of its segments. -/
theorem WellCut.landmarks_eq (h : WellCut segments) :
    landmarks (writtenAll segments) = segments.filterMap landmark? := by
  rw [landmarks, h.zip_marks]
  induction h with
  | nil => rfl
  | @plain c rest _ _ ih =>
      rw [List.flatMap_cons, List.filterMap_append, ih]
      cases hmark : Landmark.ofMarked? (c, .plain) <;> simp [marked, landmark?, hmark]
  | @hidden s rest hreads _ ih =>
      obtain ⟨w, rfl, -⟩ := exists_eq_cons_of_readsHidden hreads
      have hmarked :
          (Segment.hidden ('<' :: w)).marked.filterMap Landmark.ofMarked? = [.hidden] := by
        have hwithin : (w.map (·, Mark.within)).filterMap Landmark.ofMarked? = [] := by
          rw [List.filterMap_eq_nil_iff]
          intro p hp
          obtain ⟨c, -, rfl⟩ := List.mem_map.mp hp
          rfl
        rw [← zip_replicate_within] at hwithin
        exact congrArg (Landmark.hidden :: ·) hwithin
      rw [List.flatMap_cons, List.filterMap_append, hmarked, ih]
      rfl

/-- After a section that stands between tags no bracket closes before one opens. -/
theorem WellCut.mem_of_hidden {s : Text} (h : WellCut (Segment.hidden s :: r))
    (hchain : ((Segment.hidden s :: r).filterMap landmark?).IsChain Landmark.MayPrecede)
    (hr : writtenAll r = a ++ '>' :: b) : '<' ∈ a := by
  by_contra hnone
  cases h with
  | hidden _ hcut =>
      have hplain : OpensNothing (a ++ ['>']) := opensNothing_of_not_mem (by simp [hnone])
      obtain ⟨r', rfl, -⟩ := hcut.exists_eq_map_plain_append hplain
        (by rw [hr, List.append_assoc, List.singleton_append])
      have hhidden : (Segment.hidden s).landmark? = some .hidden := rfl
      rw [List.filterMap_cons_some hhidden, List.filterMap_append,
        filterMap_landmark?_map_plain] at hchain
      have hclosing : Landmark.closing ∈
          (brackets (a ++ ['>']) ++ r'.filterMap landmark?).head? := by
        rw [List.head?_append, head?_brackets_of_not_mem hnone]
        rfl
      exact hchain.rel_head? hclosing

/-- After a bracket that opens no section begins before one closes. -/
theorem WellCut.exists_plain_of_opening (h : WellCut r)
    (hchain : (Landmark.opening :: r.filterMap landmark?).IsChain Landmark.MayPrecede)
    (hr : writtenAll r = a ++ b) (ha : '>' ∉ a) :
    ∃ r', r = a.map Segment.plain ++ r' ∧ writtenAll r' = b := by
  induction a generalizing r with
  | nil => exact ⟨r, rfl, hr⟩
  | cons c a ih =>
      rw [List.mem_cons, not_or] at ha
      cases h with
      | nil => cases hr
      | @plain d rest _ hrest =>
          obtain ⟨rfl, htail⟩ := List.cons.inj hr
          have hnext : (Landmark.opening :: rest.filterMap landmark?).IsChain
              Landmark.MayPrecede := by
            by_cases hd : d = '<'
            · subst hd
              exact hchain.tail
            · have hnone : (Segment.plain d).landmark? = none := by
                simp [landmark?, Landmark.ofMarked?, hd, Ne.symm ha.1]
              rwa [List.filterMap_cons_none hnone] at hchain
          obtain ⟨r', rfl, hr'⟩ := ih hrest hnext htail ha.2
          exact ⟨r', rfl, hr'⟩
      | @hidden s rest _ _ => exact absurd (List.isChain_cons_cons.mp hchain).1 id

/-- Text without opening brackets up to a closing one is plain wherever the sections stand between
tags, also when it is read from the masked text. -/
theorem WellCut.exists_plain_of_masked (h : WellCut r)
    (hchain : (r.filterMap landmark?).IsChain Landmark.MayPrecede)
    (hr : maskedAll r = a ++ '>' :: b) (ha : '<' ∉ a) :
    ∃ r', r = (a ++ ['>']).map Segment.plain ++ r' ∧ maskedAll r' = b := by
  induction h generalizing a with
  | nil => cases a <;> cases hr
  | @plain c rest _ _ ih =>
      cases a with
      | nil =>
          obtain ⟨rfl, htail⟩ := List.cons.inj hr
          exact ⟨rest, rfl, htail⟩
      | cons e a =>
          rw [List.mem_cons, not_or] at ha
          obtain ⟨rfl, htail⟩ := List.cons.inj hr
          have hnext : (rest.filterMap landmark?).IsChain Landmark.MayPrecede := by
            cases hmark : (Segment.plain c).landmark? with
            | none => rwa [List.filterMap_cons_none hmark] at hchain
            | some m =>
                rw [List.filterMap_cons_some hmark] at hchain
                exact hchain.tail
          obtain ⟨r', rfl, hr'⟩ := ih hnext htail ha.2
          exact ⟨r', rfl, hr'⟩
  | @hidden s rest hreads hrest ih =>
      obtain ⟨a', ha', hmasked⟩ : ∃ a', (∀ c ∈ a', c ∈ a) ∧ maskedAll rest = a' ++ '>' :: b := by
        rw [maskedAll_hidden_cons] at hr
        rcases List.append_eq_append_iff.mp hr with ⟨a', rfl, hrest⟩ | ⟨w, hw, hrest⟩
        · exact ⟨a', fun c hc => List.mem_append_right _ hc, hrest⟩
        · cases w with
          | nil => exact ⟨[], by simp, hrest.symm⟩
          | cons e w =>
              obtain ⟨rfl, -⟩ := List.cons.inj hrest
              have hmem : '>' ∈ s.flatMap (maskChar · .within) := by
                rw [hw]
                simp
              rcases eq_of_mem_flatMap_maskChar hmem with h | h <;> cases h
      have hbracket : '<' ∉ a' := fun hmem => ha (ha' _ hmem)
      obtain ⟨r', rfl, -⟩ := ih hchain.tail hmasked hbracket
      refine absurd ((WellCut.hidden hreads hrest).mem_of_hidden hchain (b := writtenAll r') ?_)
        hbracket
      simp

/-- What plain text is exchanged for, so that the sections stay where they are: text that opens no
section itself or together with what stands before it, and that has the same brackets or is
enclosed by them. -/
structure Exchanges (x y : Text) : Prop where
  /-- It begins with a character that does not go on with an opener. -/
  start : ∃ d w, y = d :: w ∧ d ∉ openerTail
  /-- It opens no section. -/
  opensNothing : OpensNothing y
  /-- Its brackets fit. -/
  fits : brackets y = brackets x ∨
    (brackets y).head? = some .opening ∧ (brackets y).getLast? = some .closing

/-- Exchanging plain characters keeps the sections of a text and their places. -/
theorem WellCut.exchange_sections (h : WellCut (l ++ (x.map Segment.plain ++ r)))
    (hsections : ∀ s, Segment.hidden s ∈ l → ∀ later, ReadsHidden s later)
    (hbetween : BetweenTags (writtenAll l ++ (x ++ writtenAll r))) (hy : Exchanges x y) :
    hiddenSections (writtenAll l ++ (y ++ writtenAll r)) =
        hiddenSections (writtenAll l ++ (x ++ writtenAll r)) ∧
      BetweenTags (writtenAll l ++ (y ++ writtenAll r)) := by
  have hwritten : ∀ w : Text, writtenAll l ++ (w ++ writtenAll r) =
      writtenAll (l ++ (w.map Segment.plain ++ r)) := by
    intro w
    rw [writtenAll_append, writtenAll_append, writtenAll_map_plain]
  have hcut : WellCut (l ++ (y.map Segment.plain ++ r)) := by
    obtain ⟨d, w, rfl, hd⟩ := hy.start
    exact h.exchange hsections hd hy.opensNothing
  rw [BetweenTags, hwritten, h.landmarks_eq, List.filterMap_append, List.filterMap_append,
    filterMap_landmark?_map_plain] at hbetween
  rw [BetweenTags, hwritten, hwritten, h.hiddenSections_eq, hcut.hiddenSections_eq,
    hcut.landmarks_eq]
  simp only [List.filterMap_append, filterMap_section?_map_plain, filterMap_landmark?_map_plain,
    List.nil_append, true_and]
  rcases hy.fits with hsame | ⟨hhead, hlast⟩
  · rwa [hsame]
  · exact Landmark.isChain_exchange hbetween (hidden_not_mem_brackets y) hhead hlast

end Segment

end MarkupRepair
