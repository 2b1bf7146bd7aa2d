import MarkupRepair.Proofs.Markup.Sections

/-!
# Reading on at a place of a text

What comes behind a place is read inside of a section or outside, and only that carries over from
what stands in front, unless an opener or a closer goes across the place. None does behind a closing
bracket or in front of a line feed.
-/

namespace MarkupRepair

variable {p r w z : Text} {c : Char} {zone : Option HiddenKind}

/-- Whether no opener and no closer goes across the place between two texts. -/
def Seam (p z : Text) : Prop :=
  ∀ u, u ≠ [] → u <:+ p → ∀ kind : HiddenKind, ∀ m ∈ [kind.opener, kind.closer],
    m <+: u ++ z → m <+: u

theorem Seam.of_cons (h : Seam (c :: p) z) : Seam p z :=
  fun u hu hsuffix => h u hu (hsuffix.trans (List.suffix_cons c p))

/-- An opener or a closer that goes across a place begins in front of it and goes on behind it. -/
theorem seam_of_forall (h : ∀ u v : Text, u ≠ [] → u <:+ p → v ≠ [] → v <+: z →
    ∀ kind : HiddenKind, u ++ v ≠ kind.opener ∧ u ++ v ≠ kind.closer) : Seam p z := by
  intro u hu hsuffix kind m hm hprefix
  rcases List.prefix_or_prefix_of_prefix hprefix (List.prefix_append u z) with hwithin | ⟨v, hv⟩
  · exact hwithin
  · obtain rfl | hne := eq_or_ne v []
    · rw [← hv, List.append_nil]
    · rw [← hv, List.prefix_append_right_inj] at hprefix
      obtain ⟨hopener, hcloser⟩ := h u v hu hsuffix hne hprefix kind
      rw [hv] at hopener hcloser
      simp only [List.mem_cons, List.not_mem_nil, or_false] at hm
      exact hm.elim (absurd · hopener) (absurd · hcloser)

/-- Nothing but a closer has a closing bracket, and that at its end. -/
theorem seam_of_closing (h : p.getLast? = some '>') (z : Text) : Seam p z := by
  refine seam_of_forall fun u v hu hsuffix hv _ kind => ?_
  have hlast : '>' ∈ u := by
    obtain ⟨q, rfl⟩ := hsuffix
    rw [List.getLast?_append_of_ne_nil _ hu] at h
    exact List.mem_of_getLast? h
  have hfront : ∀ m : Text, u ++ v = m → '>' ∈ m.dropLast := by
    rintro m rfl
    rw [List.dropLast_append_of_ne_nil hv]
    exact List.mem_append_left _ hlast
  constructor
  · intro heq
    have hmem := hfront _ heq
    cases kind <;> simp [HiddenKind.opener] at hmem
  · intro heq
    have hmem := hfront _ heq
    cases kind <;> simp [HiddenKind.closer] at hmem

/-- Nothing has a line feed. -/
theorem seam_of_feed (p : Text) (h : z.head?.all (· == '\n') = true) : Seam p z := by
  refine seam_of_forall fun u v _ _ hv hprefix kind => ?_
  have hmem : '\n' ∈ u ++ v := by
    obtain ⟨d, v, rfl⟩ := List.exists_cons_of_ne_nil hv
    obtain ⟨z, rfl⟩ := hprefix
    obtain rfl : d = '\n' := by simpa using h
    simp
  constructor
  · intro heq
    rw [heq] at hmem
    cases kind <;> simp [HiddenKind.opener] at hmem
  · intro heq
    rw [heq] at hmem
    cases kind <;> simp [HiddenKind.closer] at hmem

/-- What begins with an opener or a closer does so without what comes behind the place. -/
theorem Seam.startsWith_eq (h : Seam (c :: r) z) (kind : HiddenKind) {m : Text}
    (hm : m ∈ [kind.opener, kind.closer]) :
    Text.startsWith (c :: (r ++ z)) m = Text.startsWith (c :: r) m := by
  rw [Bool.eq_iff_iff, Text.startsWith_iff, Text.startsWith_iff, ← List.cons_append]
  exact ⟨h _ (List.cons_ne_nil c r) (List.suffix_refl _) kind m hm,
    fun hprefix => hprefix.trans (List.prefix_append _ z)⟩

theorem Seam.at?_eq (h : Seam (c :: r) z) :
    HiddenKind.at? (c :: (r ++ z)) = HiddenKind.at? (c :: r) := by
  rw [HiddenKind.at?, HiddenKind.at?, h.startsWith_eq .comment (by simp),
    h.startsWith_eq .cdata (by simp)]

/-- What stands in front of a place is marked as it is by itself, and what comes behind it is read
inside of a section or outside. -/
theorem exists_zone_marksFrom (zone : Option HiddenKind) (pending : Nat) (p : Text)
    (hpending : pending ≤ p.length) : ∃ zone', ∀ z, Seam p z →
      marksFrom zone pending (p ++ z) = marksFrom zone pending p ++ marksFrom zone' 0 z := by
  -- An opener or a closer that begins in front of the place also ends there, so the number of its
  -- characters that are still to come never exceeds what is left.
  induction p generalizing zone pending with
  | nil =>
      obtain rfl : pending = 0 := by simpa using hpending
      exact ⟨zone, fun z _ => by rw [List.nil_append, marksFrom]; rfl⟩
  | cons c r ih =>
      cases pending with
      | succ pending =>
          obtain ⟨zone', hzone⟩ := ih zone pending (by simpa using hpending)
          refine ⟨zone', fun z hseam => ?_⟩
          rw [List.cons_append, marksFrom, marksFrom, hzone z hseam.of_cons, List.cons_append]
      | zero =>
          cases zone with
          | none =>
              cases hat : HiddenKind.at? (c :: r) with
              | none =>
                  obtain ⟨zone', hzone⟩ := ih none 0 (Nat.zero_le _)
                  refine ⟨zone', fun z hseam => ?_⟩
                  rw [List.cons_append, marksFrom, marksFrom, hseam.at?_eq, hat]
                  exact congrArg _ (hzone z hseam.of_cons)
              | some kind =>
                  have hlength := (HiddenKind.opener_prefix_of_at? hat).length_le
                  obtain ⟨zone', hzone⟩ := ih (some kind) (kind.opener.length - 1)
                    (by simp only [List.length_cons] at hlength; omega)
                  refine ⟨zone', fun z hseam => ?_⟩
                  rw [List.cons_append, marksFrom, marksFrom, hseam.at?_eq, hat]
                  exact congrArg _ (hzone z hseam.of_cons)
          | some kind =>
              have hcloser : ∀ {z : Text}, Seam (c :: r) z →
                  Text.startsWith (c :: (r ++ z)) kind.closer =
                    Text.startsWith (c :: r) kind.closer :=
                fun hseam => hseam.startsWith_eq kind (by simp)
              by_cases hstarts : Text.startsWith (c :: r) kind.closer = true
              · have hlength := (Text.startsWith_iff.mp hstarts).length_le
                obtain ⟨zone', hzone⟩ := ih none (kind.closer.length - 1)
                  (by simp only [List.length_cons] at hlength; omega)
                refine ⟨zone', fun z hseam => ?_⟩
                rw [List.cons_append, marksFrom, marksFrom, hcloser hseam, if_pos hstarts,
                  if_pos hstarts, hzone z hseam.of_cons, List.cons_append]
              · obtain ⟨zone', hzone⟩ := ih (some kind) 0 (Nat.zero_le _)
                refine ⟨zone', fun z hseam => ?_⟩
                rw [List.cons_append, marksFrom, marksFrom, hcloser hseam, if_neg hstarts,
                  if_neg hstarts, hzone z hseam.of_cons, List.cons_append]

/-- Text that opens no section is plain outside of sections. -/
theorem marksFrom_none_append (h : Segment.OpensNothing w) (z : Text) :
    marksFrom none 0 (w ++ z) = List.replicate w.length .plain ++ marksFrom none 0 z := by
  induction w with
  | nil => rfl
  | cons c w ih =>
      have hat : HiddenKind.at? (c :: (w ++ z)) = none :=
        h (c :: w) z (List.cons_ne_nil c w) (List.suffix_refl _)
      rw [List.cons_append, marksFrom, hat, List.length_cons, List.replicate_succ]
      exact congrArg _ (ih h.of_cons)

/-- Text in which no closer begins stays in its section. -/
theorem marksFrom_some_append (kind : HiddenKind) (hdash : '-' ∉ w) (hbracket : ']' ∉ w)
    (z : Text) : marksFrom (some kind) 0 (w ++ z) =
      List.replicate w.length .within ++ marksFrom (some kind) 0 z := by
  induction w with
  | nil => rfl
  | cons c w ih =>
      rw [List.mem_cons, not_or] at hdash hbracket
      have hstarts : Text.startsWith (c :: (w ++ z)) kind.closer = false := by
        cases kind <;>
          simp [HiddenKind.closer, Text.startsWith, Text.afterPrefix?, hdash.1, hbracket.1]
      rw [List.cons_append, marksFrom, hstarts, if_neg Bool.false_ne_true, ih hdash.2 hbracket.2,
        List.length_cons, List.replicate_succ, List.cons_append]

/-- Whether a text ends inside of a section: a line feed behind it would be hidden. -/
def endsInSection (t : Text) : Bool := (marks (t ++ ['\n'])).getLast? == some .within

/-- The masked text of what is read inside of a section or outside. -/
def maskFrom (zone : Option HiddenKind) (t : Text) : Text :=
  ((t.zip (marksFrom zone 0 t)).map fun q => maskChar q.1 q.2).flatten

/-- The masked text behind text of which every character has the same mark. -/
theorem maskFrom_append {m : Mark}
    (h : marksFrom zone 0 (w ++ z) = List.replicate w.length m ++ marksFrom zone 0 z) :
    maskFrom zone (w ++ z) = w.flatMap (maskChar · m) ++ maskFrom zone z := by
  have hsame : ∀ w : Text, ((w.zip (List.replicate w.length m)).map fun q =>
      maskChar q.1 q.2).flatten = w.flatMap (maskChar · m) := by
    intro w
    induction w with
    | nil => rfl
    | cons c w ih =>
        rw [List.length_cons, List.replicate_succ, List.zip_cons_cons, List.map_cons,
          List.flatten_cons, ih, List.flatMap_cons]
  rw [maskFrom, h, List.zip_append (by simp), List.map_append, List.flatten_append, hsame, maskFrom]

/-- A text in front of a place is masked as it is by itself, and what comes behind it as outside of
sections, or as inside of one when the text ends in it. -/
theorem exists_zone_mask (p : Text) : ∃ zone : Option HiddenKind, zone.isSome = endsInSection p ∧
    ∀ z, Seam p z → mask (p ++ z) = mask p ++ maskFrom zone z := by
  obtain ⟨zone, hzone⟩ := exists_zone_marksFrom none 0 p (Nat.zero_le _)
  refine ⟨zone, ?_, fun z hseam => ?_⟩
  · rw [endsInSection, marks, hzone _ (seam_of_feed p rfl), List.getLast?_append]
    cases zone with
    | none => rfl
    | some kind => cases kind <;> rfl
  · rw [mask, marks, hzone z hseam, List.zip_append (by simp), List.map_append,
      List.flatten_append]
    rfl

end MarkupRepair
