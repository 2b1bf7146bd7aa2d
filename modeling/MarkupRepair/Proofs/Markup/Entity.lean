import MarkupRepair.Markup.Entity

/-!
# Reading references

A run of characters of one class is read up to the first character outside of it. In particular a
reference is read with the name that stands in front of its semicolon.
-/

namespace MarkupRepair

section Classes

variable {p : Char → Bool} {w rest : Text} {c d : Char}

theorem takeWhile_append_cons (hw : ∀ c ∈ w, p c = true) (hd : p d = false) :
    (w ++ d :: rest).takeWhile p = w := by
  rw [List.takeWhile_append_of_pos hw, List.takeWhile_cons_of_neg (by simp [hd]), List.append_nil]

theorem dropWhile_append_cons (hw : ∀ c ∈ w, p c = true) (hd : p d = false) :
    (w ++ d :: rest).dropWhile p = d :: rest := by
  rw [List.dropWhile_append_of_pos hw, List.dropWhile_cons_of_neg (by simp [hd])]

/-- The characters of a text that lacks one differ from it. -/
theorem bne_of_not_mem (hd : d ∉ w) : ∀ c ∈ w, (c != d) = true := by
  intro c hc
  rw [bne_iff_ne]
  rintro rfl
  exact hd hc

/-- A character of a class is none outside of it. -/
theorem ne_of_class (hc : p c = true) (hd : p d = false) : c ≠ d := by
  rintro rfl
  rw [hc] at hd
  cases hd

theorem not_mem_of_class (hw : ∀ c ∈ w, p c = true) (hd : p d = false) : d ∉ w := by
  intro hmem
  exact ne_of_class (hw d hmem) hd rfl

theorem not_mem_append_of_class (hw : ∀ c ∈ w, p c = true) (hd : p d = false) (hne : d ≠ c) :
    d ∉ w ++ [c] := by
  rw [List.mem_append, List.mem_singleton, not_or]
  exact ⟨not_mem_of_class hw hd, hne⟩

end Classes

/-- Whether a text can be the name of an entity. -/
def IsEntityName (name : Text) : Prop := name ≠ [] ∧ ∀ c ∈ name, isEntityNameChar c = true

instance : DecidablePred IsEntityName := fun name =>
  decidable_of_iff (name ≠ [] ∧ name.all isEntityNameChar = true)
    (and_congr_right fun _ => List.all_eq_true)

namespace EntityText

theorem read_append {name : Text} (hname : ∀ c ∈ name, isEntityNameChar c = true) {d : Char}
    (hd : isEntityNameChar d = false) (rest : Text) :
    read (name ++ d :: rest) = ⟨name, d == ';'⟩ := by
  rw [read, takeWhile_append_cons hname hd, dropWhile_append_cons hname hd]
  by_cases hsemi : d = ';'
  · simp [Text.startsWith, Text.afterPrefix?, hsemi]
  · simp [Text.startsWith, Text.afterPrefix?, hsemi, Ne.symm hsemi]

/-- A name is read as far as it goes. -/
theorem read_append_of_head? {name rest : Text} (hname : ∀ c ∈ name, isEntityNameChar c = true)
    (hstop : rest.head?.any isEntityNameChar = false) :
    read (name ++ rest) = ⟨name, rest.head? == some ';'⟩ := by
  cases rest with
  | nil =>
      rw [read, List.takeWhile_append_of_pos hname, List.dropWhile_append_of_pos hname,
        List.takeWhile_nil, List.append_nil]
      rfl
  | cons d rest => exact read_append hname hstop rest

/-- A terminated reference is a name with a semicolon after it. -/
theorem terminated_read_iff {r : Text} :
    (read r).terminated = true ↔ ∃ name tail, IsEntityName name ∧ r = name ++ ';' :: tail := by
  constructor
  · intro h
    simp only [terminated, read, Bool.and_eq_true, Bool.not_eq_true',
      List.isEmpty_eq_false_iff] at h
    obtain ⟨hsemi, hname⟩ := h
    obtain ⟨tail, htail⟩ := Option.isSome_iff_exists.mp hsemi
    rw [Text.afterPrefix?_eq_some_iff] at htail
    refine ⟨r.takeWhile isEntityNameChar, tail, ⟨hname, ?_⟩, ?_⟩
    · exact List.all_eq_true.mp List.all_takeWhile
    · calc
        r = r.takeWhile isEntityNameChar ++ r.dropWhile isEntityNameChar :=
          List.takeWhile_append_dropWhile.symm
        _ = r.takeWhile isEntityNameChar ++ ';' :: tail := by rw [htail, List.singleton_append]
  · rintro ⟨name, tail, hname, rfl⟩
    rw [read_append hname.2 (by decide)]
    simp [terminated, hname.1]

end EntityText

end MarkupRepair
