import MarkupRepair.Proofs.Markup.Sections
import MarkupRepair.Proofs.Markup.Tokens

/-!
# Completing the references of a text

Every ampersand outside of comments and CDATA sections starts a reference. What a reference lacks
can be put behind its name, whatever stands there: the names, the sections and everything else of
the text are read as before, and no open reference is left.
-/

namespace MarkupRepair

/-- A reference is read from the text as it is read from the masked text. -/
theorem Segment.WellCut.read_maskedAll {segments : List Segment} (h : Segment.WellCut segments) :
    EntityText.read (Segment.maskedAll segments) =
      EntityText.read (Segment.writtenAll segments) := by
  have hstop : ∀ (c : Char) (u : Text), isEntityNameChar c = false →
      EntityText.read (c :: u) = ⟨[], c == ';'⟩ :=
    fun c u hc => EntityText.read_append (List.forall_mem_nil _) hc u
  induction h with
  | nil => rfl
  | @plain c rest _ _ ih =>
      rw [Segment.maskedAll_plain_cons, Segment.writtenAll_plain_cons]
      cases hc : isEntityNameChar c with
      | true =>
          unfold EntityText.read at ih ⊢
          rw [EntityText.mk.injEq] at ih
          simp only [List.takeWhile_cons_of_pos hc, List.dropWhile_cons_of_pos hc, ih.1, ih.2]
      | false => rw [hstop c _ hc, hstop c _ hc]
  | @hidden s rest hreads _ _ =>
      obtain ⟨w, rfl, -⟩ := Segment.exists_eq_cons_of_readsHidden hreads
      have hmasked : Segment.maskedAll (Segment.hidden ('<' :: w) :: rest) =
          ' ' :: (w.flatMap (maskChar · .within) ++ Segment.maskedAll rest) := rfl
      rw [hmasked, Segment.writtenAll_hidden_cons, List.cons_append, hstop ' ' _ (by decide),
        hstop '<' _ (by decide)]
      rfl

/-- What a reference lacks behind its name: a lone ampersand the rest of `&amp;`, a name without a
semicolon that semicolon. -/
def EntityText.completion (e : EntityText) : Text :=
  if e.name = [] then "amp;".toList else if e.semicolon then [] else [';']

/-- The text of marked characters with every reference outside of the sections completed. -/
def completedFrom : List (Char × Mark) → Text
  | [] => []
  | (c, m) :: r =>
      let rest := completedFrom r
      if c = '&' ∧ m = .plain then
        let e := EntityText.read (r.map (·.1))
        c :: (rest.take e.name.length ++ (e.completion ++ rest.drop e.name.length))
      else c :: rest

/-- A text with every reference outside of comments and CDATA sections completed: `&` without a name
becomes `&amp;`, and a name without a semicolon gets one. -/
def Text.completed (t : Text) : Text := completedFrom (t.zip (marks t))

section Completed

variable {a b marked : List (Char × Mark)} {name rest rest' : Text}

/-- Completing references inserts nothing in front of a text. -/
theorem head?_completedFrom (marked : List (Char × Mark)) :
    (completedFrom marked).head? = (marked.map (·.1)).head? := by
  cases marked with
  | nil => rfl
  | cons p r =>
      simp only [completedFrom]
      split <;> rfl

/-- Characters that start no reference are copied. -/
theorem completedFrom_append_of_not_mem (h : ('&', Mark.plain) ∉ a) :
    completedFrom (a ++ b) = a.map (·.1) ++ completedFrom b := by
  induction a with
  | nil => rfl
  | cons p a ih =>
      rw [List.mem_cons, not_or] at h
      have hp : ¬ (p.1 = '&' ∧ p.2 = .plain) := fun heq =>
        h.1 (Prod.ext heq.1.symm heq.2.symm)
      rw [List.cons_append, completedFrom, if_neg hp, ih h.2, List.map_cons, List.cons_append]

/-- The name of a reference and what stands after it. -/
theorem EntityText.exists_name_append (t : Text) : ∃ name rest, t = name ++ rest ∧
    (∀ c ∈ name, isEntityNameChar c = true) ∧ rest.head?.any isEntityNameChar = false := by
  refine ⟨t.takeWhile isEntityNameChar, t.dropWhile isEntityNameChar,
    List.takeWhile_append_dropWhile.symm, fun c hc => List.mem_takeWhile_imp hc, ?_⟩
  have hstop := all_head?_dropWhile isEntityNameChar t
  cases hafter : t.dropWhile isEntityNameChar with
  | nil => rfl
  | cons c rest => simpa [hafter] using hstop

/-- The name of a reference among marked characters. -/
theorem exists_name (marked : List (Char × Mark)) : ∃ a b, marked = a ++ b ∧
    (∀ c ∈ a.map (·.1), isEntityNameChar c = true) ∧
      (b.map (·.1)).head?.any isEntityNameChar = false := by
  obtain ⟨name, rest, hsplit, hname, hstop⟩ := EntityText.exists_name_append (marked.map (·.1))
  obtain ⟨a, b, rfl, rfl, rfl⟩ := List.map_eq_append_iff.mp hsplit
  exact ⟨a, b, rfl, hname, hstop⟩

theorem ampersand_not_mem (hname : ∀ c ∈ a.map (·.1), isEntityNameChar c = true) :
    ('&', Mark.plain) ∉ a := fun hmem =>
  absurd (hname _ (List.mem_map_of_mem hmem)) (by decide)

/-- A reference is copied with its completion behind its name. -/
theorem completedFrom_reference (hname : ∀ c ∈ a.map (·.1), isEntityNameChar c = true)
    (hstop : (b.map (·.1)).head?.any isEntityNameChar = false) :
    completedFrom (('&', .plain) :: (a ++ b)) = '&' :: (a.map (·.1) ++
      ((EntityText.read ((a ++ b).map (·.1))).completion ++ completedFrom b)) := by
  have hread := EntityText.read_append_of_head? hname hstop
  rw [← List.map_append] at hread
  rw [completedFrom, if_pos ⟨rfl, rfl⟩]
  dsimp only
  rw [completedFrom_append_of_not_mem (ampersand_not_mem hname), hread, List.take_left,
    List.drop_left]

/-- A reference with its completion behind its name is terminated. -/
theorem EntityText.terminated_read_completion
    (hname : ∀ c ∈ name, isEntityNameChar c = true)
    (hstop : rest.head?.any isEntityNameChar = false) (hhead : rest'.head? = rest.head?) :
    (read (name ++ ((read (name ++ rest)).completion ++ rest'))).terminated = true := by
  rw [read_append_of_head? hname hstop, terminated_read_iff]
  by_cases hnil : name = []
  · exact ⟨"amp".toList, rest', by decide, by simp [completion, hnil]⟩
  · by_cases hsemicolon : rest.head? = some ';'
    · obtain ⟨tail, rfl⟩ := List.head?_eq_some_iff.mp (hhead.trans hsemicolon)
      exact ⟨name, tail, ⟨hnil, hname⟩, by simp [completion, hnil, hsemicolon]⟩
    · exact ⟨name, rest', ⟨hnil, hname⟩, by simp [completion, hnil, hsemicolon]⟩

/-- A terminated reference lacks nothing. -/
theorem EntityText.completion_of_terminated {e : EntityText} (h : e.terminated = true) :
    e.completion = [] := by
  simp only [terminated, Bool.and_eq_true, Bool.not_eq_true', List.isEmpty_eq_false_iff] at h
  rw [completion, if_neg h.2, if_pos h.1]

/-- An open reference that has a name has no semicolon. -/
theorem EntityText.semicolon_eq_false {e : EntityText} (h : e.terminated = false)
    (hname : e.name ≠ []) : e.semicolon = false := by
  simpa [terminated, hname] using h

/-- An open reference lacks the rest of `&amp;` or a semicolon. -/
theorem EntityText.completion_of_open {e : EntityText} (h : e.terminated = false) :
    e.completion = if e.name = [] then "amp;".toList else [';'] := by
  unfold completion
  split
  next => rfl
  next hname =>
    rw [semicolon_eq_false h hname]
    rfl

/-- A completion consists of name characters and a semicolon. -/
theorem EntityText.not_mem_completion (e : EntityText) {c : Char}
    (hname : isEntityNameChar c = false) (hne : c ≠ ';') : c ∉ e.completion := by
  have hamp : ∀ d ∈ "amp".toList, isEntityNameChar d = true :=
    (by decide : IsEntityName "amp".toList).2
  unfold completion
  split
  · exact not_mem_append_of_class hamp hname hne
  · split
    · exact List.not_mem_nil
    · simpa using hne

/-- A terminated reference is passed over. -/
theorem EntityText.openFrom_of_terminated {w : Text} (h : (read w).terminated = true)
    (offset : Nat) : openFrom offset ('&' :: w) = openFrom (offset + '&'.utf8Size) w := by
  rw [openFrom, all, if_pos rfl, List.filter_cons_of_neg (by simp [h])]
  rfl

end Completed

namespace Segment

variable {l r y : List Segment}

theorem maskedAll_map_plain_append (w : Text) (y : List Segment) :
    maskedAll (w.map Segment.plain ++ y) = w ++ maskedAll y := by
  rw [maskedAll_append, maskedAll_map_plain]

/-- A completion can be put behind the name of a reference. -/
theorem WellCut.complete {name : Text} (h : WellCut (l ++ (('&' :: name).map Segment.plain ++ y)))
    (hname : ∀ c ∈ name, isEntityNameChar c = true) (e : EntityText) :
    WellCut (l ++ (('&' :: (name ++ e.completion)).map Segment.plain ++ y)) := by
  refine h.exchange h.readsHidden_of_append (by decide) (opensNothing_of_not_mem ?_)
  have hcompletion : '<' ∉ e.completion := e.not_mem_completion (by decide) (by decide)
  simp [not_mem_of_class hname (by decide : isEntityNameChar '<' = false), hcompletion]

/-- A reference with its completion behind its name is not open. -/
theorem WellCut.openFrom_completion {name rest : Text} {e : EntityText}
    (h : WellCut (('&' :: (name ++ e.completion)).map Segment.plain ++ y))
    (he : EntityText.read (name ++ rest) = e) (hname : ∀ c ∈ name, isEntityNameChar c = true)
    (hstop : rest.head?.any isEntityNameChar = false)
    (hhead : (writtenAll y).head? = rest.head?) (offset : Nat) :
    EntityText.openFrom offset
        (maskedAll (('&' :: (name ++ e.completion)).map Segment.plain ++ y)) =
      EntityText.openFrom (offset + Text.size ('&' :: (name ++ e.completion))) (maskedAll y) := by
  have hcut : WellCut ((name ++ e.completion).map Segment.plain ++ y) := by
    cases h with
    | plain _ hrest => exact hrest
  have hread : (EntityText.read (name ++ e.completion ++ maskedAll y)).terminated = true := by
    rw [← maskedAll_map_plain_append, hcut.read_maskedAll, writtenAll_append,
      writtenAll_map_plain, List.append_assoc, ← he]
    exact EntityText.terminated_read_completion hname hstop hhead
  have hmem : '&' ∉ name ++ e.completion := by
    rw [List.mem_append, not_or]
    exact ⟨not_mem_of_class hname (by decide), e.not_mem_completion (by decide) (by decide)⟩
  rw [maskedAll_map_plain_append, List.cons_append, EntityText.openFrom_of_terminated hread,
    EntityText.openFrom_append_of_terminated (terminated_of_not_mem hmem), Text.size_cons,
    Nat.add_assoc]

/-- The characters of segments are those of their marked characters. -/
theorem WellCut.map_fst_marked {segments : List Segment} (h : WellCut segments) :
    (segments.flatMap marked).map (·.1) = writtenAll segments := by
  rw [← h.zip_marks]
  exact List.map_fst_zip (by simp [marks])

/-- No reference starts in a section. -/
theorem ampersand_not_mem_hidden (s : Text) : ('&', Mark.plain) ∉ (Segment.hidden s).marked := by
  intro hmem
  have hmark := List.of_mem_zip hmem
  simp at hmark

theorem map_fst_hidden {s rest : Text} (h : ReadsHidden s rest) :
    (Segment.hidden s).marked.map (·.1) = s := by
  obtain ⟨w, rfl, -⟩ := exists_eq_cons_of_readsHidden h
  rw [marked_hidden_cons, List.map_cons, List.map_map]
  exact congrArg _ (List.map_id' w)

/-- What stands for a section in the masked text has no references. -/
theorem openFrom_hidden (s : Text) (rest : List Segment) (offset : Nat) :
    EntityText.openFrom offset (maskedAll (Segment.hidden s :: rest)) =
      EntityText.openFrom (offset + Text.size s) (maskedAll rest) := by
  have hamp : '&' ∉ s.flatMap (maskChar · .within) := fun hmem => by
    rcases eq_of_mem_flatMap_maskChar hmem with h | h <;> cases h
  have hsize := size_maskedAll [Segment.hidden s]
  rw [maskedAll_hidden_cons, writtenAll_hidden_cons, Text.size_append, Text.size_append] at hsize
  rw [maskedAll_hidden_cons,
    EntityText.openFrom_append_of_terminated (terminated_of_not_mem hamp),
    Nat.add_right_cancel hsize]

/-- Whether segments after others stand for completed marked characters. -/
structure Completes (l done : List Segment) (marked : List (Char × Mark)) : Prop where
  /-- The sections are still read as such. -/
  cut : WellCut (l ++ done)
  /-- The references are completed. -/
  written : writtenAll done = completedFrom marked
  /-- None of them is open. -/
  closed : ∀ offset, EntityText.openFrom offset (maskedAll done) = []

/-- The reference of a plain ampersand is completed behind its name, which is plain. -/
theorem Completes.exists_reference {done : List Segment} {later : List (Char × Mark)}
    (h : Completes (l ++ [Segment.plain '&']) done later) :
    ∃ done', Completes l done' (('&', .plain) :: later) := by
  obtain ⟨hdone, hwritten, hopen⟩ := h
  rw [List.append_assoc, List.singleton_append] at hdone
  have hplain : WellCut done := by
    cases hdone.of_append with
    | plain _ hrest => exact hrest
  obtain ⟨a, b, rfl, hname, hstop⟩ := exists_name later
  have hbracket : '<' ∉ a.map (·.1) := not_mem_of_class hname (by decide)
  have hamp : '&' ∉ a.map (·.1) := not_mem_of_class hname (by decide)
  rw [completedFrom_append_of_not_mem (ampersand_not_mem hname)] at hwritten
  obtain ⟨y, rfl, hy⟩ :=
    hplain.exists_eq_map_plain_append (opensNothing_of_not_mem hbracket) hwritten
  have hcut := WellCut.complete hdone hname (EntityText.read (a.map (·.1) ++ b.map (·.1)))
  have hhead : (writtenAll y).head? = (b.map (·.1)).head? := by
    rw [hy, head?_completedFrom]
  refine ⟨_, hcut, ?_, fun offset => ?_⟩
  · rw [writtenAll_append, writtenAll_map_plain, hy, List.cons_append, List.append_assoc,
      ← List.map_append]
    exact (completedFrom_reference hname hstop).symm
  · have hsize : ∀ w, offset + Text.size ('&' :: (a.map (·.1) ++ w)) =
        offset + ('&'.utf8Size + Text.size w) + Text.size (a.map (·.1)) := fun w => by
      rw [Text.size_cons, Text.size_append]
      omega
    rw [hcut.of_append.openFrom_completion rfl hname hstop hhead, hsize,
      ← EntityText.openFrom_append_of_terminated (terminated_of_not_mem hamp),
      ← maskedAll_map_plain_append, hopen]

/-- Completing the references of a text leaves the sections as they are. -/
theorem WellCut.exists_completes {segments : List Segment} (h : WellCut (l ++ segments)) :
    ∃ done, Completes l done (segments.flatMap marked) := by
  induction segments generalizing l with
  | nil => exact ⟨[], h, rfl, fun _ => rfl⟩
  | cons s r ih =>
      have hnext : WellCut ((l ++ [s]) ++ r) := by rwa [List.append_assoc]
      obtain ⟨done, hdone⟩ := ih hnext
      have hcut := hdone.cut
      rw [List.append_assoc, List.singleton_append] at hcut
      cases s with
      | hidden s =>
          have hreads : ReadsHidden s (writtenAll done) := by
            cases hcut.of_append with
            | hidden hreads _ => exact hreads
          refine ⟨Segment.hidden s :: done, hcut, ?_, fun offset => ?_⟩
          · rw [List.flatMap_cons, completedFrom_append_of_not_mem (ampersand_not_mem_hidden s),
              map_fst_hidden hreads, writtenAll_hidden_cons, hdone.written]
          · rw [openFrom_hidden, hdone.closed]
      | plain c =>
          by_cases hc : c = '&'
          · subst hc
            exact hdone.exists_reference
          · have hcopied : ('&', Mark.plain) ∉ (Segment.plain c).marked := by
              simp [marked, Ne.symm hc]
            refine ⟨Segment.plain c :: done, hcut, ?_, fun offset => ?_⟩
            · rw [List.flatMap_cons, completedFrom_append_of_not_mem hcopied,
                writtenAll_plain_cons, hdone.written]
              rfl
            · rw [maskedAll_plain_cons, EntityText.openFrom_cons_of_ne hc, hdone.closed]

/-- A completed text has no open references. -/
theorem openFrom_mask_completed (t : Text) : EntityText.openFrom 0 (mask t.completed) = [] := by
  obtain ⟨segments, hcut, rfl, -⟩ := exists_wellCut t
  obtain ⟨done, hdone⟩ := hcut.exists_completes (l := [])
  have hmask : mask (writtenAll done) = maskedAll done := WellCut.mask_eq hdone.cut
  rw [Text.completed, hcut.zip_marks, ← hdone.written, hmask, hdone.closed]

end Segment

end MarkupRepair
