import MarkupRepair.Proofs.Text.Parts

/-!
# Checked slices

A slice of a text is given by byte offsets. It fails when they are out of order, out of range or
inside a character. Computations in which every slice is checked end with a result or with the first
slice that fails; a slice between two places of the text does not fail.
-/

namespace MarkupRepair

/-- A slice that fails. -/
structure BadSlice where
  /-- The text to be sliced. -/
  text : Text
  /-- The offsets that do not cut it. -/
  span : Span
  deriving DecidableEq, Repr

/-- The outcome of a computation in which every slice is checked. -/
abbrev Sliced := Except BadSlice

@[simp] theorem Sliced.ok_bind {α β : Type} (a : α) (next : α → Sliced β) :
    (Except.ok a : Sliced α) >>= next = next a := rfl

@[simp] theorem Sliced.pure_eq_ok {α : Type} (a : α) : (pure a : Sliced α) = .ok a := rfl

/-- A list is worked through without a failing slice when each of its members is. -/
theorem Sliced.mapM_eq_ok {α β : Type} {f : α → Sliced β} {g : α → β} {l : List α}
    (h : ∀ x ∈ l, f x = .ok (g x)) : l.mapM f = .ok (l.map g) := by
  induction l with
  | nil => rfl
  | cons x l ih =>
      rw [List.forall_mem_cons] at h
      rw [List.mapM_cons, h.1, ok_bind, ih h.2, ok_bind]
      rfl

namespace Text

variable {a b c r t w : Text} {n : Nat} {s : Span} {p : Char → Bool}

/-- A checked slice. -/
def cut (t : Text) (s : Span) : Sliced Text :=
  match slice? t s with
  | some part => .ok part
  | none => .error ⟨t, s⟩

/-- The text with a stretch exchanged, what is in front of it and behind it being sliced off. -/
def spliceCut (t : Text) (s : Span) (replacement : Text) : Sliced Text := do
  let front ← t.cut ⟨0, s.start⟩
  let rest ← t.cut ⟨s.stop, size t⟩
  return front ++ replacement ++ rest

/-- Byte offset of the first character of a class. -/
def firstOffset? (p : Char → Bool) : Text → Option Nat
  | [] => none
  | c :: r => if p c then some 0 else (firstOffset? p r).map (c.utf8Size + ·)

/-- A slice between two places. -/
theorem cut_append (a b c : Text) :
    cut (a ++ (b ++ c)) ⟨size a, size a + size b⟩ = .ok b := by
  rw [cut, slice?_append]

/-- A slice up to a place. -/
theorem cut_upTo (a b : Text) : cut (a ++ b) ⟨0, size a⟩ = .ok a := by
  simpa using cut_append [] a b

/-- A slice from a place on. -/
theorem cut_from (a b : Text) : cut (a ++ b) ⟨size a, size (a ++ b)⟩ = .ok b := by
  simpa using cut_append a b []

/-- Between two characters of a text there is a place. -/
theorem exists_append_of_isBoundary (h : isBoundary n t = true) :
    ∃ a b, t = a ++ b ∧ n = size a := by
  induction t generalizing n with
  | nil =>
      cases n with
      | zero => exact ⟨[], [], rfl, rfl⟩
      | succ n => cases h
  | cons c r ih =>
      cases n with
      | zero => exact ⟨[], c :: r, rfl, rfl⟩
      | succ n =>
          rw [isBoundary, Bool.and_eq_true, decide_eq_true_eq] at h
          obtain ⟨a, b, rfl, hsize⟩ := ih h.2
          refine ⟨c :: a, b, rfl, ?_⟩
          rw [size_cons]
          omega

theorem le_size_of_isBoundary (h : isBoundary n t = true) : n ≤ size t := by
  obtain ⟨a, b, rfl, rfl⟩ := exists_append_of_isBoundary h
  rw [size_append]
  exact Nat.le_add_right _ _

/-- The parts around a slice that does not fail. -/
theorem slice?_eq_some_iff :
    slice? t s = some w ↔ ∃ a b, t = a ++ (w ++ b) ∧ s = ⟨size a, size a + size w⟩ := by
  constructor
  · intro h
    unfold slice? at h
    rw [Option.ite_none_right_eq_some] at h
    obtain ⟨hplaces, hslice⟩ := h
    simp only [Bool.and_eq_true, decide_eq_true_eq] at hplaces
    obtain ⟨⟨hle, hstart⟩, hstop⟩ := hplaces
    obtain ⟨a, b, rfl, ha⟩ := exists_append_of_isBoundary hstart
    obtain ⟨a', b', heq, ha'⟩ := exists_append_of_isBoundary hstop
    obtain ⟨m, rfl, rfl⟩ : ∃ m, a' = a ++ m ∧ b = m ++ b' := by
      rcases List.append_eq_append_iff.mp heq with hsplit | ⟨m, rfl, rfl⟩
      · exact hsplit
      · rw [ha, ha', size_append] at hle
        obtain rfl := eq_nil_of_size_eq_zero (t := m) (by omega)
        exact ⟨[], by simp, rfl⟩
    rw [size_append] at ha'
    have hspan : s = ⟨size a, size a + size m⟩ := by
      rw [← ha', ← ha]
    rw [hspan, slice_append, Option.some.injEq] at hslice
    exact ⟨a, b', by rw [hslice], by rw [hspan, hslice]⟩
  · rintro ⟨a, b, rfl, rfl⟩
    exact slice?_append a w b

/-- A slice fails inside a character, even where it would be empty. -/
example : cut ['é'] ⟨1, 1⟩ = .error ⟨['é'], ⟨1, 1⟩⟩ := rfl

theorem from?_append (a b : Text) : from? (a ++ b) (size a) = some b := by
  rw [from?, if_pos (isBoundary_size_append a b), dropBytes_size_append]

/-- Whether a span begins and ends at places of a text. -/
def Fits (s : Span) (t : Text) : Prop := isBoundary s.start t = true ∧ isBoundary s.stop t = true

theorem fits_append (a b c : Text) : Fits ⟨size a, size a + size b⟩ (a ++ (b ++ c)) := by
  have hstop := isBoundary_size_append (a ++ b) c
  rw [List.append_assoc, size_append] at hstop
  exact ⟨isBoundary_size_append a (b ++ c), hstop⟩

theorem fits_place (a b : Text) : Fits ⟨size a, size a⟩ (a ++ b) :=
  ⟨isBoundary_size_append a b, isBoundary_size_append a b⟩

/-- Exchanging a stretch between two places. -/
theorem Fits.spliceCut_eq_ok (h : Fits s t) (r : Text) : spliceCut t s r = .ok (splice t s r) := by
  obtain ⟨a, b, ht, ha⟩ := exists_append_of_isBoundary h.1
  obtain ⟨c, d, ht', hc⟩ := exists_append_of_isBoundary h.2
  have hfront := cut_upTo a b
  have hrest := cut_from c d
  rw [← ht, ← ha] at hfront
  rw [← ht', ← hc] at hrest
  have htake : takeBytes s.start t = a := by
    rw [ha, ht, takeBytes_size_append]
  have hdrop : dropBytes s.stop t = d := by
    rw [hc, ht', dropBytes_size_append]
  rw [spliceCut, hfront, Sliced.ok_bind, hrest, Sliced.ok_bind, splice, htake, hdrop]
  rfl

/-- Exchanging a stretch between two places, as the outcome of a fix. -/
theorem Fits.exchange_eq_ok (h : Fits s t) (r : Text) :
    (do return some (← spliceCut t s r) : Sliced (Option Text)) = .ok (some (splice t s r)) := by
  rw [h.spliceCut_eq_ok]
  rfl

/-- The end of a span between two places is a place. -/
theorem Fits.stop (h : Fits s t) : Fits ⟨s.stop, s.stop⟩ t := ⟨h.2, h.2⟩

/-- What is in front of the first character of a class. -/
theorem firstOffset?_eq (p : Char → Bool) (t : Text) : firstOffset? p t =
    if t.any p then some (size (t.takeWhile fun c => !p c)) else none := by
  induction t with
  | nil => rfl
  | cons c r ih =>
      by_cases hc : p c = true
      · simp [firstOffset?, hc]
      · rw [firstOffset?, if_neg hc, ih]
        by_cases hr : r.any p = true <;> simp [hc, hr]

/-- The characters up to the first one of a class take this many bytes. -/
theorem getD_firstOffset? (p : Char → Bool) (t : Text) :
    (firstOffset? p t).getD (size t) = size (t.takeWhile fun c => !p c) := by
  rw [firstOffset?_eq]
  split
  next => rfl
  next hnone =>
    have hother : ∀ c ∈ t, (!p c) = true := by
      simpa using hnone
    have hall : (t ++ []).takeWhile (fun c => !p c) = t ++ [] :=
      List.takeWhile_append_of_pos hother
    rw [List.append_nil] at hall
    rw [hall, Option.getD_none]

/-- What is trimmed off in front is the white space there. -/
theorem size_sub_size_trimStart (t : Text) :
    size t - size (trimStart t) = size (t.takeWhile isWhiteSpace) := by
  have hparts := congrArg size (takeWhile_append_trimStart t)
  rw [size_append] at hparts
  omega

/-- The characters of a class in front can be sliced off. -/
theorem cut_takeWhile (p : Char → Bool) (t : Text) :
    cut t ⟨0, size (t.takeWhile p)⟩ = .ok (t.takeWhile p) := by
  have hcut := cut_upTo (t.takeWhile p) (t.dropWhile p)
  rwa [List.takeWhile_append_dropWhile] at hcut

end Text

end MarkupRepair
