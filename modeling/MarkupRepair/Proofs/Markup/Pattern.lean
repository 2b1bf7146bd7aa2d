import MarkupRepair.Text.Basic

/-!
# Patterns

A pattern is tried at the start of a text. It can match in several ways, and which comes first is
settled by the pattern alone: of two alternatives the one written first, of a repetition the
longest or the shortest. What follows a repetition is tried on each way in turn, so the first way
in which the whole pattern matches is the one that a search with backtracking ends in.
-/

namespace MarkupRepair

/-- One way in which a pattern matches the start of a text. -/
structure Reading where
  /-- What the groups of the pattern have matched, in order. -/
  groups : List Text
  /-- The characters matched. -/
  matched : Text
  /-- The characters behind them. -/
  rest : Text
  deriving DecidableEq, Repr

namespace Reading

/-- A reading and one of what is behind it. -/
def followedBy (x y : Reading) : Reading := ⟨x.groups ++ y.groups, x.matched ++ y.matched, y.rest⟩

/-- A reading as a group. -/
def asGroup (x : Reading) : Reading := ⟨[x.matched], x.matched, x.rest⟩

end Reading

/-- A pattern of characters. -/
inductive Pattern where
  /-- One character of a class. -/
  | one (holds : Char → Bool)
  /-- No character. -/
  | nothing
  /-- Two patterns in a row. -/
  | both (first second : Pattern)
  /-- Either of two patterns, rather the first. -/
  | either (first second : Pattern)
  /-- A pattern without groups any number of times, rather often. -/
  | many (item : Pattern)
  /-- A pattern without groups any number of times, rather seldom. -/
  | few (item : Pattern)
  /-- A pattern without groups as a group. -/
  | group (inner : Pattern)

namespace Pattern

/-- The readings of a repetition: at each place it stops or reads one more item, which has to have
characters, and stops first when it reads few items. -/
def repeated (few : Bool) (item : Text → List Reading) (t : Text) : List Reading :=
  let more := (item t).flatMap fun x =>
    if x.rest.length < t.length then
      (repeated few item x.rest).map fun y => ⟨[], x.matched ++ y.matched, y.rest⟩
    else []
  if few then ⟨[], [], t⟩ :: more else more ++ [⟨[], [], t⟩]
termination_by t.length

/-- The readings of a pattern at the start of a text, the preferred ones first. -/
def readings : Pattern → Text → List Reading
  | .one _, [] => []
  | .one holds, c :: r => if holds c then [⟨[], [c], r⟩] else []
  | .nothing, t => [⟨[], [], t⟩]
  | .both p q, t => (p.readings t).flatMap fun x => (q.readings x.rest).map x.followedBy
  | .either p q, t => p.readings t ++ q.readings t
  | .many p, t => repeated false p.readings t
  | .few p, t => repeated true p.readings t
  | .group p, t => (p.readings t).map Reading.asGroup

/-- The match of a pattern at the start of a text. -/
def first? (p : Pattern) (t : Text) : Option Reading := (p.readings t).head?

/-- The matches of a pattern in a text that begins at `offset`, each with the offset where it
starts: from left to right, each one looked for behind the one before it. The first `skip`
characters of the text belong to a match already found. -/
def occurrences (p : Pattern) : (offset skip : Nat) → Text → List (Nat × Reading)
  | _, _, [] => []
  | offset, skip + 1, c :: r => p.occurrences (offset + c.utf8Size) skip r
  | offset, 0, c :: r =>
      match p.first? (c :: r) with
      | some x => (offset, x) :: p.occurrences (offset + c.utf8Size) (x.matched.length - 1) r
      | none => p.occurrences (offset + c.utf8Size) 0 r

/-- A pattern that may be left out. -/
def optional (p : Pattern) : Pattern := .either p .nothing

/-- A given character. -/
def char (c : Char) : Pattern := .one (· == c)

/-- No class of the pattern has the character. -/
def Spares (d : Char) : Pattern → Prop
  | .one holds => holds d = false
  | .nothing => True
  | .both p q | .either p q => p.Spares d ∧ q.Spares d
  | .many p | .few p | .group p => p.Spares d

section Readings

variable {p q : Pattern} {t : Text} {x : Reading} {few : Bool} {item : Text → List Reading}

theorem readings_one_nil (holds : Char → Bool) : (one holds).readings [] = [] := rfl

theorem readings_one_cons (holds : Char → Bool) (c : Char) (r : Text) :
    (one holds).readings (c :: r) = if holds c then [⟨[], [c], r⟩] else [] := rfl

theorem readings_both : (both p q).readings t =
    (p.readings t).flatMap fun x => (q.readings x.rest).map x.followedBy := rfl

theorem readings_many : (many p).readings t = repeated false p.readings t := rfl

theorem readings_few : (Pattern.few p).readings t = repeated true p.readings t := rfl

@[simp] theorem mem_both : x ∈ (both p q).readings t ↔
    ∃ y ∈ p.readings t, ∃ z ∈ q.readings y.rest, y.followedBy z = x := by
  simp [readings_both]

@[simp] theorem mem_either : x ∈ (either p q).readings t ↔ x ∈ p.readings t ∨ x ∈ q.readings t :=
  List.mem_append

@[simp] theorem mem_group : x ∈ (group p).readings t ↔ ∃ y ∈ p.readings t, y.asGroup = x :=
  List.mem_map

@[simp] theorem mem_nothing : x ∈ nothing.readings t ↔ x = ⟨[], [], t⟩ := List.mem_singleton

@[simp] theorem mem_one {holds : Char → Bool} : x ∈ (one holds).readings t ↔
    ∃ c r, t = c :: r ∧ holds c = true ∧ x = ⟨[], [c], r⟩ := by
  cases t with
  | nil => simp [readings_one_nil]
  | cons c r =>
      rw [readings_one_cons]
      split
      next hc =>
        rw [List.mem_singleton]
        refine ⟨fun h => ⟨c, r, rfl, hc, h⟩, ?_⟩
        rintro ⟨_, _, hcons, -, rfl⟩
        obtain ⟨rfl, rfl⟩ := List.cons.inj hcons
        rfl
      next hc =>
        refine ⟨fun h => absurd h List.not_mem_nil, ?_⟩
        rintro ⟨_, _, hcons, hholds, -⟩
        obtain ⟨rfl, rfl⟩ := List.cons.inj hcons
        exact absurd hholds hc

/-- A repetition has stopped, or it has read one item and is repeated behind it. -/
theorem mem_repeated : x ∈ repeated few item t ↔ x = ⟨[], [], t⟩ ∨
    ∃ y ∈ item t, y.rest.length < t.length ∧ ∃ z ∈ repeated few item y.rest,
      x = ⟨[], y.matched ++ z.matched, z.rest⟩ := by
  rw [repeated]
  have hmore : ∀ y : Reading, (x ∈ if y.rest.length < t.length then
      (repeated few item y.rest).map fun z => (⟨[], y.matched ++ z.matched, z.rest⟩ : Reading)
      else []) ↔ y.rest.length < t.length ∧ ∃ z ∈ repeated few item y.rest,
        x = ⟨[], y.matched ++ z.matched, z.rest⟩ := by
    intro y
    split
    next hlt => simp [hlt, eq_comm]
    next hlt => simp [hlt]
  cases few <;> simp [hmore, or_comm]

/-- What holds of the characters of the items holds of those of a repetition. -/
theorem repeated_induction {motive : Text → Text → Text → Prop} (hstop : ∀ t, motive t [] t)
    (hstep : ∀ t, ∀ y ∈ item t, ∀ w r, motive y.rest w r → motive t (y.matched ++ w) r)
    (h : x ∈ repeated few item t) : motive t x.matched x.rest := by
  induction hn : t.length using Nat.strongRecOn generalizing t x with
  | ind n ih =>
      rcases mem_repeated.mp h with rfl | ⟨y, hy, hlt, z, hz, rfl⟩
      · exact hstop t
      · exact hstep t y hy _ _ (ih _ (hn ▸ hlt) hz rfl)

/-- A reading is a reading of the start of the text. -/
theorem eq_append_of_mem (h : x ∈ p.readings t) : t = x.matched ++ x.rest := by
  induction p generalizing t x with
  | one holds =>
      obtain ⟨c, r, rfl, -, rfl⟩ := mem_one.mp h
      rfl
  | nothing =>
      rw [mem_nothing.mp h]
      rfl
  | both p q hp hq =>
      obtain ⟨y, hy, z, hz, rfl⟩ := mem_both.mp h
      rw [hp hy, hq hz]
      exact (List.append_assoc ..).symm
  | either p q hp hq => exact (mem_either.mp h).elim hp hq
  | many p hp | few p hp =>
      refine repeated_induction (motive := fun t w r => t = w ++ r) (fun t => rfl) ?_ h
      intro t y hy w r hw
      rw [hp hy, hw, List.append_assoc]
  | group p hp =>
      obtain ⟨y, hy, rfl⟩ := mem_group.mp h
      exact hp (x := y) hy

/-- A pattern does not match a character that it spares. -/
theorem not_mem_matched {d : Char} (hp : p.Spares d) (h : x ∈ p.readings t) :
    d ∉ x.matched := by
  induction p generalizing t x with
  | one holds =>
      obtain ⟨c, r, -, hc, rfl⟩ := mem_one.mp h
      intro hd
      obtain rfl := List.mem_singleton.mp hd
      exact absurd hc (Bool.eq_false_iff.mp hp)
  | nothing =>
      rw [mem_nothing.mp h]
      exact List.not_mem_nil
  | both p q hp' hq' =>
      obtain ⟨y, hy, z, hz, rfl⟩ := mem_both.mp h
      exact fun hd => (List.mem_append.mp hd).elim (hp' hp.1 hy) (hq' hp.2 hz)
  | either p q hp' hq' => exact (mem_either.mp h).elim (hp' hp.1) (hq' hp.2)
  | many p hp' | few p hp' =>
      refine repeated_induction (motive := fun _ w _ => d ∉ w) (fun t => List.not_mem_nil) ?_ h
      exact fun t y hy w r hw hd => (List.mem_append.mp hd).elim (hp' hp hy) hw
  | group p hp' =>
      obtain ⟨y, hy, rfl⟩ := mem_group.mp h
      exact hp' (x := y) hp hy

end Readings

section First

variable {p q : Pattern} {t : Text}

/-- Two patterns match in a row in the first way of the first one that lets the second one match. -/
theorem first?_both : (both p q).first? t =
    (p.readings t).findSome? fun x => (q.first? x.rest).map x.followedBy := by
  simp [first?, readings_both, List.head?_flatMap]

theorem first?_both_eq_some {x y : Reading} (hp : p.first? t = some x)
    (hq : q.first? x.rest = some y) : (both p q).first? t = some (x.followedBy y) := by
  obtain ⟨l, hl⟩ := List.head?_eq_some_iff.mp hp
  rw [first?_both, hl, List.findSome?_cons, hq]
  rfl

theorem first?_group : (group p).first? t = (p.first? t).map Reading.asGroup := List.head?_map

theorem first?_eq_none_iff : p.first? t = none ↔ ∀ x, x ∉ p.readings t := by
  rw [first?, List.head?_eq_none_iff, List.eq_nil_iff_forall_not_mem]

/-- As many characters of a class as there are. -/
theorem first?_many_one (holds : Char → Bool) (t : Text) :
    (many (one holds)).first? t = some ⟨[], t.takeWhile holds, t.dropWhile holds⟩ := by
  induction t with
  | nil => simp [first?, readings_many, readings_one_nil, repeated]
  | cons c r ih =>
      rw [first?, readings_many] at ih ⊢
      rw [repeated]
      by_cases hc : holds c = true
      · have hread : readings (one holds) (c :: r) = [⟨[], [c], r⟩] := if_pos hc
        simp [hread, ih, hc]
      · have hread : readings (one holds) (c :: r) = [] := if_neg hc
        simp [hread, hc]

/-- Behind a repetition that reads few items, the next pattern is tried at once and otherwise
behind each item in turn. -/
theorem findSome?_few {α : Type} (item : Pattern) (t : Text) (next : Reading → Option α) :
    ((few item).readings t).findSome? next = (next ⟨[], [], t⟩).or
      ((item.readings t).findSome? fun x =>
        if x.rest.length < t.length then
          ((few item).readings x.rest).findSome? fun y =>
            next ⟨[], x.matched ++ y.matched, y.rest⟩
        else none) := by
  rw [readings_few, repeated, if_pos rfl, List.findSome?_cons, ← List.head?_filterMap,
    List.filterMap_flatMap, List.head?_flatMap]
  have hmore : ∀ x : Reading, ((if x.rest.length < t.length then
      (repeated true item.readings x.rest).map fun y =>
        (⟨[], x.matched ++ y.matched, y.rest⟩ : Reading) else []).filterMap next).head? =
      if x.rest.length < t.length then
        (repeated true item.readings x.rest).findSome? fun y =>
          next ⟨[], x.matched ++ y.matched, y.rest⟩
      else none := by
    intro x
    split
    · rw [List.head?_filterMap, List.findSome?_map]
      rfl
    · rfl
  simp only [hmore, readings_few]
  cases next ⟨[], [], t⟩ <;> rfl

end First

section Occurrences

/-- The characters of a match are passed over. -/
theorem occurrences_length_append (p : Pattern) (offset : Nat) (w rest : Text) :
    p.occurrences offset w.length (w ++ rest) = p.occurrences (offset + Text.size w) 0 rest := by
  induction w generalizing offset with
  | nil => rfl
  | cons c w ih =>
      rw [List.length_cons, List.cons_append, occurrences, ih, Text.size_cons, Nat.add_assoc]

end Occurrences

end Pattern

end MarkupRepair
