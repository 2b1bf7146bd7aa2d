import MarkupRepair.Text.Basic

/-!
# Parts of a text

The end of a beginning of a text falls between two characters. What stands between two such ends
can be cut out, and at such an end something can be inserted. What has no character of a kind stands
on one side of each.
-/

namespace MarkupRepair

namespace Text

theorem eq_nil_of_size_eq_zero {t : Text} (h : size t = 0) : t = [] := by
  cases t with
  | nil => rfl
  | cons c r =>
      have hpos := c.utf8Size_pos
      rw [size_cons] at h
      omega

/-- A run of a character of one byte has as many bytes as characters. -/
theorem size_of_forall_eq {run : Text} {q : Char} (hq : q.utf8Size = 1) (h : ∀ c ∈ run, c = q) :
    size run = run.length := by
  induction run with
  | nil => rfl
  | cons c r ih =>
      rw [List.forall_mem_cons] at h
      rw [size_cons, h.1, hq, ih h.2, List.length_cons, Nat.add_comm]

/-- Two beginnings of one text of the same size are the same. -/
theorem append_inj_of_size {a b a' b' : Text} (h : a ++ b = a' ++ b') (hsize : size a = size a') :
    a = a' ∧ b = b' := by
  rcases List.append_eq_append_iff.mp h with ⟨m, rfl, rfl⟩ | ⟨m, rfl, rfl⟩
  all_goals
    rw [size_append] at hsize
    obtain rfl := eq_nil_of_size_eq_zero (t := m) (by omega)
    simp

theorem isBoundary_size_append (a b : Text) : isBoundary (size a) (a ++ b) = true := by
  induction a with
  | nil =>
      cases b with
      | nil => rfl
      | cons c r => rfl
  | cons c r ih =>
      have hpos := c.utf8Size_pos
      have hsub : c.utf8Size + size r - c.utf8Size = size r := by
        omega
      cases hn : c.utf8Size + size r with
      | zero => omega
      | succ n =>
          rw [size_cons, hn, List.cons_append, isBoundary, ← hn, hsub, ih]
          simp

theorem slice_append (a b c : Text) :
    slice (a ++ (b ++ c)) ⟨size a, size a + size b⟩ = b := by
  simp only [slice, dropBytes_size_append, Nat.add_sub_cancel_left, takeBytes_size_append]

/-- The middle of three parts can be cut out. -/
theorem slice?_append (a b c : Text) :
    slice? (a ++ (b ++ c)) ⟨size a, size a + size b⟩ = some b := by
  have hstart := isBoundary_size_append a (b ++ c)
  have hstop : isBoundary (size a + size b) (a ++ (b ++ c)) = true := by
    rw [← size_append, ← List.append_assoc]
    exact isBoundary_size_append (a ++ b) c
  simp [slice?, hstart, hstop, slice_append]

/-- Inserting between two parts. -/
theorem splice_insert (a b r : Text) : splice (a ++ b) ⟨size a, size a⟩ r = a ++ r ++ b :=
  splice_append a [] b r

end Text

/-- A mark in a text stands on one side of a character that it does not have. -/
theorem infix_of_append_cons {mark a b : Text} {c : Char} (hc : c ∉ mark)
    (h : mark <:+: a ++ c :: b) : mark <:+: a ∨ mark <:+: b := by
  obtain ⟨u, v, h⟩ := h
  rcases List.append_eq_append_iff.mp h with ⟨m, rfl, -⟩ | ⟨m, hm, hv⟩
  · exact .inl ⟨u, m, rfl⟩
  · cases m with
    | nil => exact .inl ⟨u, [], by rw [List.append_nil, hm, List.append_nil]⟩
    | cons d m =>
        obtain ⟨rfl, rfl⟩ := List.cons.inj hv
        rcases List.append_eq_append_iff.mp hm with ⟨w, -, rfl⟩ | ⟨w, -, hw⟩
        · exact absurd (List.mem_append_right w List.mem_cons_self) hc
        · cases w with
          | nil =>
              rw [List.nil_append] at hw
              exact absurd (hw ▸ List.mem_cons_self) hc
          | cons e w =>
              obtain ⟨-, rfl⟩ := List.cons.inj hw
              exact .inr ⟨w, v, rfl⟩

end MarkupRepair
