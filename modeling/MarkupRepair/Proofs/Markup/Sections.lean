import Mathlib.Data.List.Chain
import MarkupRepair.Proofs.Markup.Scanning

/-!
# Texts as plain characters and hidden sections

Every text is cut in one way into characters outside of comments and CDATA sections and into the
sections themselves. The marks, the masked text and the list of sections are read off the segments.
A section that ends with its own closer is read the same whatever comes after it, so plain
characters between such sections can be exchanged for others that open no section.
-/

namespace MarkupRepair

section Openers

variable {a b : Text} {kind : HiddenKind}

theorem Text.startsWith_iff : Text.startsWith a b = true ↔ b <+: a := by
  rw [startsWith, Option.isSome_iff_exists]
  exact exists_congr fun r => Text.afterPrefix?_eq_some_iff.trans eq_comm

/-- Nothing opens a section exactly when the text begins with no opener. -/
theorem HiddenKind.at?_eq_none_iff : at? a = none ↔ ∀ kind : HiddenKind, ¬ kind.opener <+: a := by
  unfold at?
  constructor
  · intro h kind hopener
    rw [← Text.startsWith_iff] at hopener
    cases kind <;> simp [hopener] at h
    split at h <;> cases h
  · intro h
    have hcomment := h .comment
    have hcdata := h .cdata
    rw [← Text.startsWith_iff] at hcomment hcdata
    simp [hcomment, hcdata]

theorem HiddenKind.at?_opener_append (kind : HiddenKind) (rest : Text) :
    at? (kind.opener ++ rest) = some kind := by
  cases kind <;> simp [at?, opener, Text.startsWith, Text.afterPrefix?]

theorem HiddenKind.opener_prefix_of_at? (h : at? a = some kind) : kind.opener <+: a := by
  unfold at? at h
  split at h
  next hopener =>
    obtain rfl := Option.some.inj h
    exact Text.startsWith_iff.mp hopener
  next =>
    split at h
    next hopener =>
      obtain rfl := Option.some.inj h
      exact Text.startsWith_iff.mp hopener
    next => cases h

/-- The characters of openers after the angle bracket. -/
def openerTail : List Char := ['!', '-', '[', 'C', 'D', 'A', 'T']

theorem HiddenKind.exists_opener_eq (kind : HiddenKind) :
    ∃ w, kind.opener = '<' :: w ∧ ∀ c ∈ w, c ∈ openerTail := by
  cases kind with
  | comment => exact ⟨['!', '-', '-'], rfl, by simp [openerTail]⟩
  | cdata => exact ⟨['!', '[', 'C', 'D', 'A', 'T', 'A', '['], rfl, by simp [openerTail]⟩

/-- No text begins with the openers of both kinds. -/
theorem HiddenKind.eq_of_opener_prefix {other : HiddenKind} (h : kind.opener <+: a)
    (hother : other.opener <+: a) : kind = other := by
  have htake := List.prefix_iff_eq_take.mp h
  have hothertake := List.prefix_iff_eq_take.mp hother
  have hthird : kind.opener[2]? = other.opener[2]? := by
    rw [htake, hothertake]
    cases kind <;> cases other <;> simp [opener]
  cases kind <;> cases other <;> first | rfl | (revert hthird; decide)

/-- An opener that begins in a text and goes on after it goes on with one of its later
characters. -/
theorem HiddenKind.at?_append_of_not_mem {d : Char} (h : at? (a ++ b) = none) (ha : a ≠ [])
    (hd : d ∉ openerTail) (rest : Text) : at? (a ++ d :: rest) = none := by
  rw [at?_eq_none_iff] at h ⊢
  intro kind hopener
  obtain ⟨w, hw, htail⟩ := kind.exists_opener_eq
  rcases List.prefix_or_prefix_of_prefix hopener (List.prefix_append a (d :: rest)) with
    hwithin | ⟨more, hmore⟩
  · exact h kind (hwithin.trans (List.prefix_append a b))
  · rw [← hmore, List.prefix_append_right_inj] at hopener
    cases more with
    | nil =>
        rw [List.append_nil] at hmore
        exact h kind (hmore ▸ List.prefix_append a b)
    | cons e more =>
        obtain rfl := (List.cons_prefix_cons.mp hopener).1
        cases a with
        | nil => exact ha rfl
        | cons c a =>
            rw [hw, List.cons_append] at hmore
            exact hd (htail _ (by rw [← (List.cons.inj hmore).2]; simp))

end Openers

section Marks

/-- What is left of an opener or a closer is passed over. -/
theorem marksFrom_pending (zone : Option HiddenKind) (w rest : Text) :
    marksFrom zone w.length (w ++ rest) =
      List.replicate w.length .within ++ marksFrom zone 0 rest := by
  induction w with
  | nil => rfl
  | cons c r ih =>
      rw [List.cons_append, List.length_cons, marksFrom, ih, List.replicate_succ,
        List.cons_append]

/-- Outside of a section the next mark is none of a character within one. -/
theorem marks_ne_within_cons (t : Text) (later : List Mark) : marks t ≠ .within :: later := by
  intro h
  cases t with
  | nil => cases h
  | cons c r =>
      rw [marks, marksFrom] at h
      split at h <;> cases h

/-- Whether a section ends with the closer of its own kind. -/
def IsClosed (s : Text) : Prop :=
  ∃ (kind : HiddenKind) (content : Text), s = kind.opener ++ (content ++ kind.closer)

/-- Whether a text is read as one section in front of another text. -/
def ReadsHidden (s rest : Text) : Prop :=
  (∃ kind : HiddenKind, kind.opener <+: s) ∧
    marks (s ++ rest) = (.opens :: List.replicate (s.length - 1) .within) ++ marks rest

/-- A section is read up to its first closer, or as far as the text goes. -/
theorem marksFrom_some (kind : HiddenKind) (t : Text) :
    (marksFrom (some kind) 0 t = List.replicate t.length .within ∧ ¬ kind.closer <:+: t) ∨
      ∃ content rest, t = content ++ kind.closer ++ rest ∧ ∀ later,
        marksFrom (some kind) 0 (content ++ kind.closer ++ later) =
          List.replicate (content ++ kind.closer).length .within ++ marks later := by
  induction t with
  | nil =>
      refine Or.inl ⟨rfl, ?_⟩
      cases kind <;> decide
  | cons c r ih =>
      by_cases hcloser : kind.closer <+: c :: r
      · obtain ⟨rest, hrest⟩ := hcloser
        refine Or.inr ⟨[], rest, hrest.symm, fun later => ?_⟩
        obtain ⟨d, w, hw⟩ : ∃ d w, kind.closer = d :: w := by
          cases kind <;> exact ⟨_, _, rfl⟩
        have hstarts : Text.startsWith (d :: (w ++ later)) (d :: w) = true :=
          Text.startsWith_iff.mpr (List.prefix_append (d :: w) later)
        have hlength : (d :: w).length - 1 = w.length := rfl
        rw [List.nil_append, hw, List.cons_append, marksFrom, hw, if_pos hstarts, hlength,
          marksFrom_pending, List.length_cons, List.replicate_succ, List.cons_append, marks]
      · have hstep : marksFrom (some kind) 0 (c :: r) = .within :: marksFrom (some kind) 0 r := by
          rw [marksFrom, if_neg (mt Text.startsWith_iff.mp hcloser)]
        rcases ih with ⟨hmarks, hnone⟩ | ⟨content, rest, rfl, hmarks⟩
        · refine Or.inl ⟨by rw [hstep, hmarks, List.length_cons, List.replicate_succ], ?_⟩
          rw [List.infix_cons_iff, not_or]
          exact ⟨hcloser, hnone⟩
        · refine Or.inr ⟨c :: content, rest, by simp, fun later => ?_⟩
          have hlater : ¬ kind.closer <+: c :: (content ++ kind.closer ++ later) := by
            intro hprefix
            have hlong : kind.closer <+: c :: (content ++ kind.closer) := by
              refine List.prefix_of_prefix_length_le hprefix ?_ (by simp; omega)
              exact List.prefix_append (c :: (content ++ kind.closer)) later
            exact hcloser (hlong.trans (List.prefix_append _ rest))
          rw [List.cons_append, List.cons_append, marksFrom,
            if_neg (mt Text.startsWith_iff.mp hlater), hmarks, List.length_cons,
            List.replicate_succ, List.cons_append]

/-- A section goes on after its opener as far as it is read. -/
theorem readsHidden_opener_append {kind : HiddenKind} {u later : Text}
    (h : marksFrom (some kind) 0 (u ++ later) =
      List.replicate u.length .within ++ marks later) :
    ReadsHidden (kind.opener ++ u) later := by
  obtain ⟨w, hw, -⟩ := kind.exists_opener_eq
  have hat := kind.at?_opener_append (u ++ later)
  refine ⟨⟨kind, List.prefix_append _ _⟩, ?_⟩
  rw [hw, List.cons_append] at hat
  rw [List.append_assoc, hw, List.cons_append, marks, marksFrom, hat]
  dsimp only
  rw [hw, List.length_cons, Nat.add_sub_cancel, marksFrom_pending, h]
  simp [← List.append_assoc]

/-- A text that begins with an opener begins with a section. It is the whole text and not closed,
or it is read the same whatever comes after it. -/
theorem exists_readsHidden {t : Text} (h : HiddenKind.at? t ≠ none) :
    ∃ s rest, t = s ++ rest ∧ ReadsHidden s rest ∧
      ((rest = [] ∧ ¬ IsClosed s) ∨ ∀ later, ReadsHidden s later) := by
  obtain ⟨kind, hkind⟩ := Option.ne_none_iff_exists'.mp h
  obtain ⟨r, rfl⟩ := HiddenKind.opener_prefix_of_at? hkind
  rcases marksFrom_some kind r with ⟨hwithin, hnone⟩ | ⟨content, rest, rfl, hclosed⟩
  · refine ⟨kind.opener ++ r, [], by simp, readsHidden_opener_append ?_, Or.inl ⟨rfl, ?_⟩⟩
    · rw [List.append_nil, hwithin]
      exact (List.append_nil _).symm
    · rintro ⟨other, content, hother⟩
      obtain rfl : kind = other := by
        refine HiddenKind.eq_of_opener_prefix (List.prefix_append _ r) ?_
        rw [hother]
        exact List.prefix_append _ _
      have hcontent := List.append_cancel_left hother
      exact hnone ⟨content, [], by rw [List.append_nil, hcontent]⟩
  · refine ⟨kind.opener ++ (content ++ kind.closer), rest, by simp,
      readsHidden_opener_append (hclosed rest),
      Or.inr fun later => readsHidden_opener_append (hclosed later)⟩

end Marks

/-- A part of a text: a character outside of the hidden sections, or a hidden section. -/
inductive Segment where
  | plain (c : Char)
  | hidden (s : Text)

namespace Segment

/-- The characters of a segment. -/
def written : Segment → Text
  | plain c => [c]
  | hidden s => s

/-- The characters that stand for a segment in the masked text. -/
def masked : Segment → Text
  | plain c => [c]
  | hidden s => s.flatMap (maskChar · .within)

/-- The section that a segment is. -/
def section? : Segment → Option Text
  | plain _ => none
  | hidden s => some s

/-- The characters of a segment with their marks. -/
def marked : Segment → List (Char × Mark)
  | plain c => [(c, .plain)]
  | hidden s => s.zip (.opens :: List.replicate (s.length - 1) .within)

/-- The characters of a list of segments. -/
def writtenAll (segments : List Segment) : Text := segments.flatMap written

/-- The characters that stand for a list of segments in the masked text. -/
def maskedAll (segments : List Segment) : Text := segments.flatMap masked

/-- Whether a text is read as a list of segments. -/
inductive WellCut : List Segment → Prop where
  | nil : WellCut []
  | plain {c : Char} {rest : List Segment}
      (h : HiddenKind.at? (c :: writtenAll rest) = none) (hrest : WellCut rest) :
      WellCut (plain c :: rest)
  | hidden {s : Text} {rest : List Segment} (h : ReadsHidden s (writtenAll rest))
      (hrest : WellCut rest) : WellCut (hidden s :: rest)

section Cutting

variable {segments l r : List Segment} {t a b x y : Text} {c d : Char}

@[simp] theorem writtenAll_nil : writtenAll [] = [] := rfl

@[simp] theorem writtenAll_plain_cons (c : Char) (rest : List Segment) :
    writtenAll (plain c :: rest) = c :: writtenAll rest := rfl

@[simp] theorem writtenAll_hidden_cons (s : Text) (rest : List Segment) :
    writtenAll (hidden s :: rest) = s ++ writtenAll rest := rfl

@[simp] theorem writtenAll_append (a b : List Segment) :
    writtenAll (a ++ b) = writtenAll a ++ writtenAll b :=
  List.flatMap_append

@[simp] theorem writtenAll_map_plain (t : Text) : writtenAll (t.map plain) = t := by
  induction t with
  | nil => rfl
  | cons c r ih => rw [List.map_cons, writtenAll_plain_cons, ih]

@[simp] theorem maskedAll_plain_cons (c : Char) (rest : List Segment) :
    maskedAll (plain c :: rest) = c :: maskedAll rest := rfl

@[simp] theorem maskedAll_hidden_cons (s : Text) (rest : List Segment) :
    maskedAll (hidden s :: rest) = s.flatMap (maskChar · .within) ++ maskedAll rest := rfl

@[simp] theorem maskedAll_append (a b : List Segment) :
    maskedAll (a ++ b) = maskedAll a ++ maskedAll b :=
  List.flatMap_append

@[simp] theorem maskedAll_map_plain (t : Text) : maskedAll (t.map plain) = t := by
  induction t with
  | nil => rfl
  | cons c r ih => rw [List.map_cons, maskedAll_plain_cons, ih]

/-- A section is not empty: it begins with an opener. -/
theorem exists_eq_cons_of_readsHidden {s rest : Text} (h : ReadsHidden s rest) :
    ∃ r, s = '<' :: r ∧ HiddenKind.at? (s ++ rest) ≠ none := by
  obtain ⟨⟨kind, w, rfl⟩, -⟩ := h
  obtain ⟨v, hv, -⟩ := kind.exists_opener_eq
  refine ⟨v ++ w, by rw [hv, List.cons_append], ?_⟩
  rw [List.append_assoc, HiddenKind.at?_opener_append]
  exact Option.some_ne_none kind

/-- A section with text after it has its closer, so it is read the same whatever comes after it. -/
theorem readsHidden_of_ne_nil {s rest : Text} (h : ReadsHidden s rest) (hrest : rest ≠ [])
    (later : Text) : ReadsHidden s later := by
  obtain ⟨r, rfl, hat⟩ := exists_eq_cons_of_readsHidden h
  obtain ⟨s', rest', hsplit, hreads, hends⟩ := exists_readsHidden hat
  obtain ⟨r', rfl, -⟩ := exists_eq_cons_of_readsHidden hreads
  have hwithin : ∀ n t, (List.replicate n Mark.within ++ marks t).takeWhile (· == .within) =
      List.replicate n .within := by
    intro n t
    have hstop : (marks t).takeWhile (· == .within) = [] := by
      cases hmarks : marks t with
      | nil => rfl
      | cons m later =>
          refine List.takeWhile_cons_of_neg ?_
          rw [beq_iff_eq]
          rintro rfl
          exact marks_ne_within_cons t later hmarks
    rw [List.takeWhile_append_of_pos (by simp), hstop, List.append_nil]
  have hmarks := h.2.symm.trans ((congrArg marks hsplit).trans hreads.2)
  rw [List.cons_append, List.cons_append, List.cons.injEq] at hmarks
  have htail := congrArg (List.takeWhile (· == Mark.within)) hmarks.2
  rw [hwithin, hwithin] at htail
  have hlength := congrArg List.length htail
  simp only [List.length_replicate, List.length_cons, Nat.add_sub_cancel] at hlength
  obtain ⟨hsame, rfl⟩ := List.append_inj hsplit (congrArg Nat.succ hlength)
  rw [hsame]
  rcases hends with ⟨hnil, -⟩ | hall
  · exact absurd hnil hrest
  · exact hall later

/-- Sections in front of a plain character are read the same whatever comes after them. -/
theorem WellCut.readsHidden_of_append (h : WellCut (l ++ Segment.plain c :: r)) :
    ∀ s, Segment.hidden s ∈ l → ∀ later, ReadsHidden s later := by
  induction l with
  | nil => simp
  | cons x l ih =>
      intro s hs
      cases h with
      | plain _ hrest => exact ih hrest s ((List.mem_cons.mp hs).resolve_left nofun)
      | hidden hreads hrest =>
          rcases List.mem_cons.mp hs with heq | hs
          · obtain rfl := Segment.hidden.inj heq
            exact readsHidden_of_ne_nil hreads (by simp)
          · exact ih hrest s hs

/-- Segments up to a plain one are read the same without what comes after it. -/
theorem WellCut.upTo (h : WellCut (l ++ Segment.plain c :: r)) :
    WellCut (l ++ [Segment.plain c]) := by
  have hfront : ∀ a b : Text, HiddenKind.at? (a ++ b) = none → HiddenKind.at? a = none := by
    intro a b hat
    rw [HiddenKind.at?_eq_none_iff] at hat ⊢
    exact fun kind hopener => hat kind (hopener.trans (List.prefix_append a b))
  induction l with
  | nil =>
      cases h with
      | plain hat _ => exact .plain (hfront [c] _ hat) .nil
  | cons s l ih =>
      cases h with
      | @plain d _ hat hrest =>
          refine .plain (hfront _ (writtenAll r) ?_) (ih hrest)
          simpa using hat
      | hidden hreads hrest =>
          exact .hidden (readsHidden_of_ne_nil hreads (by simp) _) (ih hrest)

/-- Every text can be cut into segments, and a section with its own closer at its end is read the
same whatever comes after it. -/
theorem exists_wellCut (t : Text) : ∃ segments, WellCut segments ∧ writtenAll segments = t ∧
    ∀ s, hidden s ∈ segments → IsClosed s → ∀ later, ReadsHidden s later := by
  induction hn : t.length using Nat.strong_induction_on generalizing t with
  | _ n ih =>
      subst hn
      by_cases hat : HiddenKind.at? t = none
      · cases t with
        | nil => exact ⟨[], .nil, rfl, by simp⟩
        | cons c r =>
            obtain ⟨segments, hcut, rfl, hclosed⟩ := ih r.length (by simp) r rfl
            exact ⟨plain c :: segments, .plain hat hcut, rfl, by simpa using hclosed⟩
      · obtain ⟨s, rest, rfl, hreads, hends⟩ := exists_readsHidden hat
        obtain ⟨r, hr, -⟩ := exists_eq_cons_of_readsHidden hreads
        obtain ⟨segments, hcut, rfl, hclosed⟩ := ih rest.length (by simp [hr]) rest rfl
        refine ⟨hidden s :: segments, .hidden hreads hcut, rfl, ?_⟩
        intro s' hs' hs'closed
        rcases List.mem_cons.mp hs' with heq | hs'
        · obtain rfl := Segment.hidden.inj heq
          rcases hends with ⟨-, hopen⟩ | hall
          · exact absurd hs'closed hopen
          · exact hall
        · exact hclosed s' hs' hs'closed

/-- The marks of a text are those of its segments. -/
theorem WellCut.zip_marks (h : WellCut segments) :
    (writtenAll segments).zip (marks (writtenAll segments)) = segments.flatMap marked := by
  induction h with
  | nil => rfl
  | @plain c rest hat _ ih =>
      rw [writtenAll_plain_cons, marks, marksFrom, hat]
      exact congrArg ((c, Mark.plain) :: ·) ih
  | @hidden s rest hreads _ ih =>
      obtain ⟨r, hr, -⟩ := exists_eq_cons_of_readsHidden hreads
      rw [writtenAll_hidden_cons, hreads.2, List.zip_append (by simp [hr]), ih]
      rfl

theorem zip_replicate_within (r : Text) :
    r.zip (List.replicate r.length Mark.within) = r.map (·, Mark.within) := by
  induction r with
  | nil => rfl
  | cons c r ih => simp [List.replicate_succ, ih]

/-- The masked text is that of the segments. -/
theorem WellCut.mask_eq (h : WellCut segments) :
    mask (writtenAll segments) = maskedAll segments := by
  have hmasked : ∀ s : Segment, (s.marked.map fun p => maskChar p.1 p.2).flatten = s.masked := by
    rintro (c | s)
    · rfl
    · cases s with
      | nil => rfl
      | cons c r =>
          simp [marked, masked, maskChar, List.flatMap, zip_replicate_within, Function.comp_def]
  rw [mask, h.zip_marks, List.map_flatMap, List.flatMap, List.flatten_flatten, List.map_map]
  exact congrArg List.flatten (List.map_congr_left fun s _ => hmasked s)

/-- Outside of a section no character within one comes next. -/
theorem WellCut.takeWhile_within (h : WellCut segments) :
    (segments.flatMap marked).takeWhile (·.2 == .within) = [] := by
  rw [← h.zip_marks]
  cases hmarks : marks (writtenAll segments) with
  | nil => simp
  | cons m later =>
      cases m with
      | within => exact absurd hmarks (marks_ne_within_cons _ _)
      | plain => cases writtenAll segments <;> rfl
      | opens => cases writtenAll segments <;> rfl

/-- The first character of a section opens it, and the others are within it. -/
theorem marked_hidden_cons (c : Char) (r : Text) :
    (hidden (c :: r)).marked = (c, .opens) :: r.map (·, Mark.within) := by
  rw [← zip_replicate_within]
  rfl

/-- The characters within a section come before what follows the section. -/
theorem WellCut.takeWhile_map_within (h : WellCut segments) (r : Text) :
    (r.map (·, Mark.within) ++ segments.flatMap marked).takeWhile (·.2 == .within) =
      r.map (·, Mark.within) := by
  rw [List.takeWhile_append_of_pos (by simp), h.takeWhile_within, List.append_nil]

/-- The sections of a text are those of its segments. -/
theorem WellCut.hiddenSections_eq (h : WellCut segments) :
    hiddenSections (writtenAll segments) = segments.filterMap section? := by
  have hwithin : ∀ (r : Text) (later : List (Char × Mark)),
      sectionsFrom (r.map (·, Mark.within) ++ later) = sectionsFrom later := by
    intro r later
    induction r with
    | nil => rfl
    | cons c r ih => exact ih
  rw [hiddenSections, h.zip_marks]
  induction h with
  | nil => rfl
  | plain _ _ ih => exact ih
  | @hidden s rest hreads hrest ih =>
      obtain ⟨r, rfl, -⟩ := exists_eq_cons_of_readsHidden hreads
      rw [List.flatMap_cons, marked_hidden_cons, List.cons_append, sectionsFrom,
        hrest.takeWhile_map_within, hwithin, ih]
      simp [section?, Function.comp_def]

/-- Plain characters are no sections. -/
theorem filterMap_section?_map_plain (t : Text) : (t.map plain).filterMap section? = [] := by
  rw [List.filterMap_map]
  exact List.filterMap_eq_nil_iff.mpr fun _ _ => rfl

/-- Text without sections is its own masked text. -/
theorem maskedAll_eq_writtenAll (h : segments.filterMap section? = []) :
    maskedAll segments = writtenAll segments := by
  induction segments with
  | nil => rfl
  | cons s segments ih =>
      cases s with
      | plain c => rw [maskedAll_plain_cons, writtenAll_plain_cons, ih h]
      | hidden s => cases h

/-- The end of a part of a list of segments is again a list of segments. -/
theorem WellCut.of_append (h : WellCut (l ++ r)) : WellCut r := by
  induction l with
  | nil => exact h
  | cons s l ih =>
      cases h with
      | plain _ hrest => exact ih hrest
      | hidden _ hrest => exact ih hrest

/-- A place in a text stands between two segments or inside a section. -/
theorem split_of_append (h : writtenAll segments = a ++ b) :
    (∃ l r, segments = l ++ r ∧ writtenAll l = a ∧ writtenAll r = b) ∨
      ∃ l s₁ s₂ r, segments = l ++ hidden (s₁ ++ s₂) :: r ∧ s₁ ≠ [] ∧ s₂ ≠ [] ∧
        writtenAll l ++ s₁ = a ∧ s₂ ++ writtenAll r = b := by
  induction segments generalizing a with
  | nil =>
      obtain ⟨rfl, rfl⟩ := List.append_eq_nil_iff.mp h.symm
      exact Or.inl ⟨[], [], rfl, rfl, rfl⟩
  | cons s segments ih =>
      have hafter : ∀ a', a = s.written ++ a' → writtenAll segments = a' ++ b →
          (∃ l r, s :: segments = l ++ r ∧ writtenAll l = a ∧ writtenAll r = b) ∨
            ∃ l s₁ s₂ r, s :: segments = l ++ hidden (s₁ ++ s₂) :: r ∧ s₁ ≠ [] ∧ s₂ ≠ [] ∧
              writtenAll l ++ s₁ = a ∧ s₂ ++ writtenAll r = b := by
        rintro a' rfl hrest
        rcases ih hrest with ⟨l, r, rfl, rfl, rfl⟩ | ⟨l, s₁, s₂, r, rfl, h₁, h₂, rfl, rfl⟩
        · exact Or.inl ⟨s :: l, r, rfl, rfl, rfl⟩
        · exact Or.inr ⟨s :: l, s₁, s₂, r, rfl, h₁, h₂, by simp [writtenAll], rfl⟩
      have hsplit : s.written ++ writtenAll segments = a ++ b := h
      rcases List.append_eq_append_iff.mp hsplit with ⟨a', ha, hrest⟩ | ⟨c, hs, hb⟩
      · exact hafter a' ha hrest
      · by_cases ha : a = []
        · exact Or.inl ⟨[], s :: segments, rfl, ha.symm, by rw [h, ha, List.nil_append]⟩
        · by_cases hc : c = []
          · subst hc
            exact hafter [] (by rw [hs, List.append_nil, List.append_nil]) hb.symm
          · cases s with
            | plain d =>
                have hlength := congrArg List.length hs
                have := List.length_pos_iff.mpr ha
                have := List.length_pos_iff.mpr hc
                simp only [written, List.length_append, List.length_singleton] at hlength
                omega
            | hidden s =>
                obtain rfl : s = a ++ c := hs
                exact Or.inr ⟨[], a, c, segments, rfl, ha, hc, rfl, hb.symm⟩

/-- Whether nothing in a text opens a section, whatever comes after the text. -/
def OpensNothing (t : Text) : Prop :=
  ∀ v rest, v ≠ [] → v <:+ t → HiddenKind.at? (v ++ rest) = none

theorem OpensNothing.of_cons (h : OpensNothing (c :: t)) : OpensNothing t :=
  fun v rest hv hsuffix => h v rest hv (hsuffix.trans (List.suffix_cons c t))

/-- Text without declarations opens no section. -/
theorem opensNothing_of_freeOfDeclarations (h : FreeOfDeclarations t) : OpensNothing t := by
  rintro v rest hv ⟨u, rfl⟩
  have hsuffix : FreeOfDeclarations v := by
    induction u with
    | nil => exact h
    | cons c u ih => exact ih h.2
  cases v with
  | nil => exact absurd rfl hv
  | cons c w =>
      by_cases hc : c = '<'
      · obtain ⟨d, s, rfl, hd⟩ := hsuffix.1 hc
        exact HiddenKind.at?_eq_none (Or.inr hd)
      · exact HiddenKind.at?_eq_none_of_ne hc

theorem opensNothing_of_not_mem (h : '<' ∉ t) : OpensNothing t :=
  opensNothing_of_freeOfDeclarations (freeOfDeclarations_of_not_mem h)

theorem OpensNothing.append (ha : OpensNothing a) (hb : OpensNothing b) :
    OpensNothing (a ++ b) := by
  rintro v rest hv ⟨u, hu⟩
  rcases List.append_eq_append_iff.mp hu with ⟨w, rfl, rfl⟩ | ⟨w, rfl, rfl⟩
  · obtain rfl | hw := eq_or_ne w []
    · exact hb b rest hv (List.suffix_refl b)
    · rw [List.append_assoc]
      exact ha w (b ++ rest) hw (List.suffix_append u w)
  · exact hb v rest hv (List.suffix_append w v)

/-- Plain text is cut into its characters. -/
theorem WellCut.exists_eq_map_plain_append (h : WellCut segments) (hx : OpensNothing x)
    (ht : writtenAll segments = x ++ b) :
    ∃ r, segments = x.map Segment.plain ++ r ∧ writtenAll r = b := by
  induction x generalizing segments with
  | nil => exact ⟨segments, rfl, ht⟩
  | cons c x ih =>
      cases h with
      | nil => cases ht
      | @plain d rest hat hrest =>
          obtain ⟨rfl, htail⟩ := List.cons.inj ht
          obtain ⟨r, rfl, hr⟩ := ih hrest hx.of_cons htail
          exact ⟨r, rfl, hr⟩
      | @hidden s rest hreads _ =>
          obtain ⟨-, -, hat⟩ := exists_eq_cons_of_readsHidden hreads
          rw [writtenAll_hidden_cons] at ht
          rw [ht] at hat
          exact absurd (hx (c :: x) b (List.cons_ne_nil c x) (List.suffix_refl _)) hat

/-- What comes after some segments can be exchanged for characters that open no section and do not
complete an opener before them, and for other segments behind these characters, when the sections
before are read the same whatever comes after them. -/
theorem WellCut.replace {after : List Segment} (h : WellCut (l ++ after)) (hr : WellCut r)
    (hsections : ∀ s, Segment.hidden s ∈ l → ∀ later, ReadsHidden s later)
    (hd : d ∉ openerTail) (hy : OpensNothing (d :: y)) :
    WellCut (l ++ ((d :: y).map Segment.plain ++ r)) := by
  induction l with
  | nil =>
      have hall : ∀ w, w <:+ d :: y → WellCut (w.map Segment.plain ++ r) := by
        intro w hw
        induction w with
        | nil => exact hr
        | cons e w ih =>
            rw [List.map_cons, List.cons_append]
            refine .plain ?_ (ih ((List.suffix_cons e w).trans hw))
            rw [writtenAll_append, writtenAll_map_plain]
            exact hy (e :: w) _ (List.cons_ne_nil e w) hw
      exact hall (d :: y) (List.suffix_refl _)
  | cons s l ih =>
      rw [List.cons_append] at h ⊢
      cases h with
      | @plain c rest hat hrest =>
          refine .plain ?_ (ih hrest fun s hs => hsections s (List.mem_cons_of_mem _ hs))
          rw [writtenAll_append] at hat
          rw [writtenAll_append]
          exact HiddenKind.at?_append_of_not_mem hat (List.cons_ne_nil c _) hd _
      | @hidden s rest _ hrest =>
          exact .hidden (hsections s List.mem_cons_self _)
            (ih hrest fun s hs => hsections s (List.mem_cons_of_mem _ hs))

/-- Plain characters can be exchanged for others that open no section and do not complete an opener
before them, when the sections before them are read the same whatever comes after them. -/
theorem WellCut.exchange (h : WellCut (l ++ (x.map Segment.plain ++ r)))
    (hsections : ∀ s, Segment.hidden s ∈ l → ∀ later, ReadsHidden s later)
    (hd : d ∉ openerTail) (hy : OpensNothing (d :: y)) :
    WellCut (l ++ ((d :: y).map Segment.plain ++ r)) :=
  h.replace h.of_append.of_append hsections hd hy

/-- What stands for a section in the masked text are blanks and line feeds. -/
theorem eq_of_mem_flatMap_maskChar (h : c ∈ t.flatMap (maskChar · .within)) :
    c = ' ' ∨ c = '\n' := by
  obtain ⟨d, -, hc⟩ := List.mem_flatMap.mp h
  simp only [maskChar] at hc
  split at hc
  · exact Or.inr (List.mem_singleton.mp hc)
  · exact Or.inl (List.eq_of_mem_replicate hc)

/-- A character of the masked text that is neither a blank nor a line feed is a plain character of
the text. -/
theorem exists_plain_of_maskedAll (h : maskedAll segments = a ++ d :: b) (hblank : d ≠ ' ')
    (hfeed : d ≠ '\n') :
    ∃ l r, segments = l ++ plain d :: r ∧ maskedAll l = a ∧ maskedAll r = b := by
  induction segments generalizing a with
  | nil => cases a <;> cases h
  | cons s segments ih =>
      cases s with
      | plain c =>
          cases a with
          | nil =>
              obtain ⟨rfl, rfl⟩ := List.cons.inj h
              exact ⟨[], segments, rfl, rfl, rfl⟩
          | cons e a =>
              obtain ⟨rfl, htail⟩ := List.cons.inj h
              obtain ⟨l, r, rfl, rfl, rfl⟩ := ih htail
              exact ⟨plain c :: l, r, rfl, rfl, rfl⟩
      | hidden s =>
          rw [maskedAll_hidden_cons] at h
          rcases List.append_eq_append_iff.mp h with ⟨a', rfl, hrest⟩ | ⟨w, hw, hrest⟩
          · obtain ⟨l, r, rfl, rfl, rfl⟩ := ih hrest
            exact ⟨hidden s :: l, r, rfl, rfl, rfl⟩
          · cases w with
            | nil =>
                obtain ⟨l, r, rfl, hl, rfl⟩ := ih (a := []) hrest.symm
                refine ⟨hidden s :: l, r, rfl, ?_, rfl⟩
                rw [maskedAll_hidden_cons, hl, hw, List.append_nil, List.append_nil]
            | cons e w =>
                obtain ⟨rfl, -⟩ := List.cons.inj hrest
                have hmem : d ∈ s.flatMap (maskChar · .within) := by
                  rw [hw]
                  simp
                rcases eq_of_mem_flatMap_maskChar hmem with rfl | rfl
                · exact absurd rfl hblank
                · exact absurd rfl hfeed

theorem size_flatMap_maskChar (s : Text) :
    Text.size (s.flatMap (maskChar · .within)) = Text.size s := by
  induction s with
  | nil => rfl
  | cons c r ih => rw [List.flatMap_cons, Text.size_append, ih, size_maskChar, Text.size_cons]

/-- Masking keeps the size. -/
theorem size_maskedAll (segments : List Segment) :
    Text.size (maskedAll segments) = Text.size (writtenAll segments) := by
  induction segments with
  | nil => rfl
  | cons s segments ih =>
      cases s with
      | plain c =>
          rw [maskedAll_plain_cons, writtenAll_plain_cons, Text.size_cons, Text.size_cons, ih]
      | hidden s =>
          rw [maskedAll_hidden_cons, writtenAll_hidden_cons, Text.size_append, Text.size_append,
            size_flatMap_maskChar, ih]

end Cutting

end Segment

end MarkupRepair
