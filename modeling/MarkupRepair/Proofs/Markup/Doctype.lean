import Mathlib.Data.List.Infix
import MarkupRepair.Proofs.Markup.Scanning

/-!
# Document types

What a document type is, and that the scan finds the first one in the masked text. More places than
that look like one: at every opening a document type begins, but it goes on to the next angle
bracket, and only a closing one ends it.
-/

namespace MarkupRepair

/-- Whether a text is a document type: the opening in any case, no further word character, and
anything but angle brackets up to the closing one. -/
def IsDoctype (x : Text) : Prop := ∃ opening body : Text, x = opening ++ (body ++ ['>']) ∧
  Text.toLowerAscii opening = "<!doctype".toList ∧ body.head?.any isWordChar = false ∧
  ∀ c ∈ body, c ≠ '<' ∧ c ≠ '>'

/-- Whether the opening of a document type begins a text. -/
def opensDoctype (t : Text) : Bool :=
  Text.toLowerAscii (t.take "<!doctype".toList.length) == "<!doctype".toList &&
    !(t.drop "<!doctype".toList.length).head?.any isWordChar

/-- Number of places of a text where the opening of a document type begins. -/
def countOpenings (t : Text) : Nat := t.tails.countP opensDoctype

/-- Number of openings of document types in a document, outside of comments and CDATA sections. -/
def Text.doctypeOpenings (t : Text) : Nat := countOpenings (mask t)

section At

variable {a b t x y : Text} {offset : Nat}

/-- The opening has a bracket at its front only. -/
theorem exists_of_toLowerAscii_eq {opening : Text}
    (h : Text.toLowerAscii opening = "<!doctype".toList) :
    ∃ z, opening = '<' :: z ∧ '<' ∉ z ∧ '>' ∉ z := by
  have hchars : "<!doctype".toList = '<' :: "!doctype".toList := by
    decide
  rw [hchars] at h
  cases opening with
  | nil => cases h
  | cons c z =>
      obtain ⟨hc, hz⟩ := List.cons.inj h
      have hnone : ∀ d, d.toLower = d → d ∉ "!doctype".toList → d ∉ z := by
        intro d hlower hd hmem
        refine hd ?_
        rw [← hz, ← hlower]
        exact List.mem_map_of_mem hmem
      exact ⟨z, by rw [eq_of_toLower_eq hc (by decide)], hnone _ (by decide) (by decide),
        hnone _ (by decide) (by decide)⟩

/-- A document type has angle brackets at its ends only. -/
theorem IsDoctype.exists_eq (h : IsDoctype x) :
    ∃ q, x = '<' :: (q ++ ['>']) ∧ '<' ∉ q ∧ '>' ∉ q := by
  obtain ⟨opening, body, rfl, hopening, -, hbody⟩ := h
  obtain ⟨z, rfl, hz, hz'⟩ := exists_of_toLowerAscii_eq hopening
  refine ⟨z ++ body, by simp, ?_, ?_⟩
  · simp only [List.mem_append, hz, false_or]
    exact fun hmem => (hbody _ hmem).1 rfl
  · simp only [List.mem_append, hz', false_or]
    exact fun hmem => (hbody _ hmem).2 rfl

/-- A document type that a text begins with is found. -/
theorem IsDoctype.doctypeAt?_append (h : IsDoctype x) (rest : Text) :
    doctypeAt? (x ++ rest) = some x := by
  obtain ⟨opening, body, rfl, hopening, hword, hbody⟩ := h
  have hlength : opening.length = "<!doctype".toList.length := by
    rw [← hopening, Text.toLowerAscii, List.length_map]
  have hsplit : opening ++ (body ++ ['>']) ++ rest = opening ++ (body ++ '>' :: rest) := by
    simp
  have htake : (body ++ '>' :: rest).takeWhile (fun c => c != '<' && c != '>') = body :=
    takeWhile_append_cons (fun c hc => by simpa using hbody c hc) (by decide)
  have hhead : (body ++ '>' :: rest).head?.any isWordChar = false := by
    cases body with
    | nil => exact (by decide : isWordChar '>' = false)
    | cons c body => exact hword
  have hclose : ((body ++ '>' :: rest).drop body.length).head? == some '>' := by
    rw [List.drop_left]
    rfl
  unfold doctypeAt?
  dsimp only
  rw [hsplit, ← hlength, List.take_left, List.drop_left, htake, hopening, hhead,
    beq_self_eq_true, Bool.not_false, Bool.and_true, if_pos rfl, if_pos hclose,
    List.append_assoc]

/-- What is found is a document type that the text begins with. -/
theorem isDoctype_of_doctypeAt? (h : doctypeAt? t = some x) : IsDoctype x ∧ x <+: t := by
  unfold doctypeAt? at h
  dsimp only at h
  split at h
  next hopening =>
    split at h
    next hclose =>
      obtain rfl := Option.some.inj h
      rw [Bool.and_eq_true, beq_iff_eq, Bool.not_eq_true'] at hopening
      obtain ⟨hlower, hword⟩ := hopening
      have ht := List.take_append_drop "<!doctype".toList.length t
      generalize t.take "<!doctype".toList.length = opening at hlower ht ⊢
      generalize t.drop "<!doctype".toList.length = rest at hclose hword ht ⊢
      have hrest := List.prefix_iff_eq_append.mp
        (List.takeWhile_prefix (l := rest) fun c => c != '<' && c != '>')
      have hbody : ∀ c ∈ rest.takeWhile fun c => c != '<' && c != '>', c ≠ '<' ∧ c ≠ '>' := by
        intro c hc
        simpa using List.mem_takeWhile_imp hc
      generalize (rest.takeWhile fun c => c != '<' && c != '>') = body at hrest hbody hclose ⊢
      obtain ⟨b, hb⟩ := List.head?_eq_some_iff.mp (beq_iff_eq.mp hclose)
      rw [hb] at hrest
      refine ⟨⟨opening, body, List.append_assoc _ _ _, hlower, ?_, hbody⟩, b, ?_⟩
      · cases body with
        | nil => rfl
        | cons c body =>
            rw [← hrest] at hword
            exact hword
      · rw [← ht, ← hrest]
        simp
    next => cases h
  next => cases h

/-- The document type that a text begins with. -/
theorem doctypeAt?_eq_some_iff : doctypeAt? t = some x ↔ IsDoctype x ∧ x <+: t := by
  constructor
  · exact isDoctype_of_doctypeAt?
  · rintro ⟨h, rest, rfl⟩
    exact h.doctypeAt?_append rest

/-- A document type is an opening. -/
theorem IsDoctype.opensDoctype_append (h : IsDoctype x) (b : Text) :
    opensDoctype (x ++ b) = true := by
  have hat := doctypeAt?_eq_some_iff.mpr ⟨h, List.prefix_append x b⟩
  by_contra hnot
  have hnone : doctypeAt? (x ++ b) = none := if_neg hnot
  rw [hat] at hnone
  cases hnone

end At

section Header

variable {a b u x y : Text} {offset : Nat} {header : Header}

theorem doctypeHeader?_eq_none_iff :
    doctypeHeader? offset u = none ↔ ∀ x, IsDoctype x → ¬ x <:+: u := by
  induction u generalizing offset with
  | nil =>
      refine iff_of_true rfl fun x hx hpart => ?_
      obtain ⟨q, rfl, -⟩ := hx.exists_eq
      cases List.infix_nil.mp hpart
  | cons c r ih =>
      have hpart : (∀ x, IsDoctype x → ¬ x <:+: c :: r) ↔
          doctypeAt? (c :: r) = none ∧ ∀ x, IsDoctype x → ¬ x <:+: r := by
        simp only [Option.eq_none_iff_forall_ne_some, ne_eq, doctypeAt?_eq_some_iff,
          List.infix_cons_iff, not_or, not_and]
        exact ⟨fun h => ⟨fun x hx => (h x hx).1, fun x hx => (h x hx).2⟩,
          fun h x hx => ⟨h.1 x hx, h.2 x hx⟩⟩
      rw [hpart, doctypeHeader?]
      cases hat : doctypeAt? (c :: r) with
      | none => simp [ih]
      | some text => simp

/-- The document type that is found is the first one. -/
theorem exists_isDoctype (h : doctypeHeader? offset u = some header) : ∃ a b,
    u = a ++ (header.text ++ b) ∧ IsDoctype header.text ∧ (∀ y, IsDoctype y → ¬ y <:+: a) ∧
      header.span =
        ⟨offset + Text.size a, offset + Text.size a + Text.size header.text⟩ := by
  induction u generalizing offset with
  | nil => cases h
  | cons c r ih =>
      rw [doctypeHeader?] at h
      cases hat : doctypeAt? (c :: r) with
      | some text =>
          rw [hat] at h
          obtain rfl := Option.some.inj h
          obtain ⟨hx, b, hb⟩ := doctypeAt?_eq_some_iff.mp hat
          refine ⟨[], b, hb.symm, hx, fun y hy hpart => ?_, rfl⟩
          obtain ⟨q, rfl, -⟩ := hy.exists_eq
          cases List.infix_nil.mp hpart
      | none =>
          rw [hat] at h
          obtain ⟨a, b, rfl, hx, hnone, hspan⟩ := ih h
          refine ⟨c :: a, b, rfl, hx, fun y hy hpart => ?_, ?_⟩
          · rcases List.infix_cons_iff.mp hpart with hprefix | hlater
            · have hsome := doctypeAt?_eq_some_iff.mpr ⟨hy, hprefix.trans
                (List.prefix_append (c :: a) (header.text ++ b))⟩
              rw [List.cons_append, hat] at hsome
              cases hsome
            · exact hnone y hy hlater
          · rw [hspan, Text.size_cons, Nat.add_assoc offset]

/-- A document type is found behind a text that has none. -/
theorem doctypeHeader?_append_isDoctype (ha : ∀ y, IsDoctype y → ¬ y <:+: a) (hx : IsDoctype x)
    (offset : Nat) (b : Text) : doctypeHeader? offset (a ++ (x ++ b)) =
      some ⟨x, offset + Text.size a, offset + Text.size a + Text.size x⟩ := by
  obtain ⟨q, hq, -⟩ := hx.exists_eq
  induction a generalizing offset with
  | nil =>
      have hat : doctypeAt? (x ++ b) = some x :=
        doctypeAt?_eq_some_iff.mpr ⟨hx, List.prefix_append x b⟩
      rw [List.nil_append]
      rw [hq, List.cons_append] at hat ⊢
      rw [doctypeHeader?, hat]
      rfl
  | cons c a ih =>
      have hat : doctypeAt? (c :: (a ++ (x ++ b))) = none := by
        by_contra hsome
        obtain ⟨y, hy⟩ := Option.ne_none_iff_exists'.mp hsome
        obtain ⟨hy, hprefix⟩ := doctypeAt?_eq_some_iff.mp hy
        rcases List.prefix_or_prefix_of_prefix hprefix (List.prefix_append (c :: a) (x ++ b)) with
          hwithin | ⟨m, hm⟩
        · exact ha y hy hwithin.isInfix
        · obtain ⟨q', hq', hopen, -⟩ := hy.exists_eq
          rw [← hm, ← List.cons_append, List.prefix_append_right_inj] at hprefix
          cases m with
          | nil => exact ha y hy (by rw [← hm, List.append_nil])
          | cons d m =>
              rw [hq, List.cons_append] at hprefix
              obtain rfl := (List.cons_prefix_cons.mp hprefix).1
              have htail : a ++ '<' :: m = q' ++ ['>'] := (List.cons.inj (hm.trans hq')).2
              have hmem : '<' ∈ q' ++ ['>'] := by
                rw [← htail]
                simp
              simp [hopen] at hmem
      have hlater : ∀ y, IsDoctype y → ¬ y <:+: a := fun y hy hpart =>
        ha y hy (hpart.trans (List.suffix_cons c a).isInfix)
      rw [List.cons_append, doctypeHeader?, hat, Text.size_cons, ← Nat.add_assoc]
      exact ih hlater (offset + c.utf8Size)

/-- A document type is found where its characters are. -/
theorem exists_of_doctypeHeader? (h : doctypeHeader? offset u = some header) : ∃ a q b,
      u = a ++ '<' :: (q ++ '>' :: b) ∧ header.text = '<' :: (q ++ ['>']) ∧ '<' ∉ q ∧
        header.span = ⟨offset + Text.size a, offset + Text.size a + Text.size header.text⟩ := by
  obtain ⟨a, b, hu, hx, -, hspan⟩ := exists_isDoctype h
  obtain ⟨q, hq, hopen, -⟩ := hx.exists_eq
  exact ⟨a, q, b, by rw [hu, hq]; simp, hq, hopen, hspan⟩

end Header

section Openings

variable {a u w z x : Text} {d : Char}

/-- Text behind a character that is no part of an opening makes no difference to an opening in front
of it. -/
theorem opensDoctype_append (hu : u ≠ []) (hd : d.toLower ∉ "!doctype".toList)
    (hword : isWordChar d = false) (z : Text) : opensDoctype (u ++ d :: z) = opensDoctype u := by
  rcases Nat.lt_or_ge u.length "<!doctype".toList.length with hshort | hlong
  · have hfalse : ∀ t : Text, Text.toLowerAscii (t.take "<!doctype".toList.length) ≠
        "<!doctype".toList → opensDoctype t = false := by
      intro t ht
      rw [opensDoctype, beq_eq_false_iff_ne.mpr ht, Bool.false_and]
    rw [hfalse, hfalse]
    · intro hlower
      have hlength := congrArg List.length hlower
      rw [List.take_of_length_le (Nat.le_of_lt hshort), Text.toLowerAscii, List.length_map]
        at hlength
      omega
    · intro hlower
      obtain ⟨n, hn⟩ := Nat.exists_eq_add_of_lt hshort
      have hchars : "<!doctype".toList = '<' :: "!doctype".toList := by
        decide
      obtain ⟨c, u, rfl⟩ := List.exists_cons_of_ne_nil hu
      rw [hn, List.take_append, List.take_of_length_le (by omega), Nat.add_assoc,
        Nat.add_sub_cancel_left, List.take_succ_cons, hchars] at hlower
      refine hd ?_
      rw [← (List.cons.inj hlower).2]
      exact List.mem_map_of_mem (by simp)
  · rw [opensDoctype, opensDoctype, List.take_append_of_le_length hlong,
      List.drop_append_of_le_length hlong]
    cases u.drop "<!doctype".toList.length with
    | nil => simp [hword]
    | cons c r => rfl

/-- The openings in front of such a character and from it on. -/
theorem countOpenings_append (hd : d.toLower ∉ "!doctype".toList) (hword : isWordChar d = false)
    (a z : Text) : countOpenings (a ++ d :: z) = countOpenings a + countOpenings (d :: z) := by
  induction a with
  | nil => simp [countOpenings, opensDoctype, Text.toLowerAscii]
  | cons c a ih =>
      have hsame := opensDoctype_append (List.cons_ne_nil c a) hd hword z
      simp only [countOpenings, List.cons_append, List.tails_cons, List.countP_cons] at ih hsame ⊢
      rw [ih, hsame]
      omega

/-- No opening begins in text without opening brackets. -/
theorem countOpenings_append_of_not_mem (hw : '<' ∉ w) (z : Text) :
    countOpenings (w ++ z) = countOpenings z := by
  induction w with
  | nil => rfl
  | cons c w ih =>
      rw [List.mem_cons, not_or] at hw
      have hc : opensDoctype (c :: (w ++ z)) = false := by
        by_contra hopens
        rw [Bool.not_eq_false, opensDoctype, Bool.and_eq_true, beq_iff_eq] at hopens
        obtain ⟨r, hr, -⟩ := exists_of_toLowerAscii_eq hopens.1
        have hlength : "<!doctype".toList.length = 8 + 1 := by
          decide
        rw [hlength, List.take_succ_cons] at hr
        exact hw.1 (List.cons.inj hr).1.symm
      rw [← ih hw.2]
      simp [countOpenings, hc]

/-- A document type has one opening. -/
theorem IsDoctype.countOpenings_append (h : IsDoctype x) (z : Text) :
    countOpenings (x ++ z) = countOpenings z + 1 := by
  have hopens := h.opensDoctype_append z
  obtain ⟨q, rfl, hopen, -⟩ := h.exists_eq
  have hrest := countOpenings_append_of_not_mem (w := q ++ ['>']) (by simp [hopen]) z
  rw [← hrest]
  simp only [countOpenings, List.cons_append, List.tails_cons, List.countP_cons] at hopens ⊢
  rw [hopens, if_pos rfl]

end Openings

end MarkupRepair
