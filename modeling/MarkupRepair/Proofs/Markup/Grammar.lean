import MarkupRepair.Proofs.Markup.Reading
import MarkupRepair.Proofs.Markup.Tokens

/-!
# The grammar of tags

What a tag is, said of the text without the functions that read it: where a tag starts, which
quotes open a quoted stretch, and how reading on from the name finds the end. A text that starts a
tag can be taken apart by the grammar, and the tag that is read there has the parts found.
-/

namespace MarkupRepair

namespace TagText

/-- A `>` comes before the next `<`. -/
def ClosesSoon (t : Text) : Prop := ∃ a b, t = a ++ '>' :: b ∧ '<' ∉ a

/-- A quote in front of a text opens a quoted stretch: it comes again before the next `<`, and a
`>` comes behind it before the next `<`. -/
def OpensQuoted (quote : Char) (t : Text) : Prop :=
  (quote = '"' ∨ quote = '\'') ∧ ∃ stretch past, t = stretch ++ quote :: past ∧
    quote ∉ stretch ∧ '<' ∉ stretch ∧ ClosesSoon past

/-- Reading on in a text passes over `inner` and ends at the `>` in front of `rest`. -/
inductive ReadsOn : (t inner rest : Text) → Prop where
  /-- A `>` ends the tag. -/
  | ends (rest : Text) : ReadsOn ('>' :: rest) [] rest
  /-- A quoted stretch is skipped whole. -/
  | quoted {quote : Char} {stretch past inner rest : Text} :
      OpensQuoted quote (stretch ++ quote :: past) → quote ∉ stretch → ReadsOn past inner rest →
      ReadsOn (quote :: (stretch ++ quote :: past)) (quote :: (stretch ++ quote :: inner)) rest
  /-- Every other character is skipped singly. -/
  | single {c : Char} {t inner rest : Text} :
      c ≠ '>' → ¬ OpensQuoted c t → ReadsOn t inner rest → ReadsOn (c :: t) (c :: inner) rest

/-- A tag starts at a `<` in front of the text: an optional `/` and a letter, and a `>` before the
next `<`. -/
def Starts (after : Text) : Prop :=
  (∃ slash c r, after = slash ++ c :: r ∧ (slash = [] ∨ slash = ['/']) ∧ c.isAlpha = true) ∧
    ClosesSoon after

/-- The parts of a tag behind its `<`: the optional `/`, the name, what is passed over up to the
final `>`, and what stands behind the tag. -/
structure Parts (after slash name inner rest : Text) : Prop where
  /-- The parts make up the text. -/
  eq : after = slash ++ (name ++ (inner ++ '>' :: rest))
  /-- The slash may be missing. -/
  slash : slash = [] ∨ slash = ['/']
  /-- A name begins with a letter. -/
  letter : name.head?.any Char.isAlpha = true
  /-- A name consists of name characters. -/
  nameChars : ∀ c ∈ name, isNameChar c = true
  /-- The name is as long as it can be. -/
  maximal : (inner ++ '>' :: rest).head?.all (!isNameChar ·) = true
  /-- A `>` comes behind the name before the next `<`. -/
  closes : ClosesSoon (inner ++ '>' :: rest)
  /-- Reading on from the name finds the end. -/
  reads : ReadsOn (inner ++ '>' :: rest) inner rest

/-- What is passed over, without a slash in front of the `>`. -/
def bodyOf (inner : Text) : Text := if inner.getLast? == some '/' then inner.dropLast else inner

/-- The slash in front of the `>`. -/
def slashOf (inner : Text) : Text := if inner.getLast? == some '/' then ['/'] else []

/-- The tag with given parts. -/
def ofParts (slash name inner : Text) : TagText :=
  ⟨!slash.isEmpty, name, bodyOf inner, inner.getLast? == some '/'⟩

/-- The parts of a tag as it is written. -/
def groups (tag : TagText) : List Text :=
  [if tag.leadingSlash then ['/'] else [], tag.name, tag.body,
    if tag.trailingSlash then ['/'] else []]

section Parts

variable {slash name inner w : Text}

/-- The slash is looked for in what was passed over last. -/
theorem parted_append (hy : inner ≠ [] ∨ w.getLast? ≠ some '/') :
    bodyOf (w ++ inner) = w ++ bodyOf inner ∧ slashOf (w ++ inner) = slashOf inner := by
  rcases List.eq_nil_or_concat' inner with rfl | ⟨front, d, rfl⟩
  · have hw := hy.resolve_left (by simp)
    simp [bodyOf, slashOf, hw]
  · rw [bodyOf, bodyOf, slashOf, slashOf, ← List.append_assoc, List.getLast?_concat,
      List.getLast?_concat, List.dropLast_concat, List.dropLast_concat]
    split <;> simp

theorem bodyOf_append_slashOf (inner : Text) : bodyOf inner ++ slashOf inner = inner := by
  unfold bodyOf slashOf
  split
  next hlast => exact List.dropLast_append_getLast? '/' (beq_iff_eq.mp hlast)
  next => exact List.append_nil _

theorem groups_ofParts (h : slash = [] ∨ slash = ['/']) :
    (ofParts slash name inner).groups = [slash, name, bodyOf inner, slashOf inner] := by
  rcases h with rfl | rfl <;> rfl

theorem toText_ofParts (h : slash = [] ∨ slash = ['/']) :
    (ofParts slash name inner).toText = '<' :: (slash ++ (name ++ (inner ++ ['>']))) := by
  calc
    _ = '<' :: (slash ++ (name ++ (bodyOf inner ++ slashOf inner ++ ['>']))) := by
      rcases h with rfl | rfl <;> simp [toText, ofParts, slashOf]
    _ = _ := by
      rw [bodyOf_append_slashOf]

theorem kind_ofParts (slash name inner : Text) : (ofParts slash name inner).kind =
    if slash ≠ [] then .closing else if inner.getLast? = some '/' then .selfClosing
      else .opening := by
  cases slash <;> simp [ofParts, kind]

end Parts

section ClosesSoon

variable {c quote : Char} {t w stretch past inner rest : Text}

theorem closesSoon_iff : ClosesSoon t ↔ '>' ∈ t.takeWhile (· != '<') := by
  constructor
  · rintro ⟨a, b, rfl, ha⟩
    rw [List.takeWhile_append_of_pos (bne_of_not_mem ha), List.takeWhile_cons_of_pos (by decide)]
    exact List.mem_append_right a List.mem_cons_self
  · intro h
    obtain ⟨a, b, htake, -⟩ := List.eq_append_cons_of_mem h
    refine ⟨a, b ++ t.dropWhile (· != '<'), ?_, fun hmem => ?_⟩
    · rw [← List.cons_append, ← List.append_assoc, ← htake, List.takeWhile_append_dropWhile]
    · have hin : '<' ∈ t.takeWhile (· != '<') := htake ▸ List.mem_append_left _ hmem
      simpa using List.mem_takeWhile_imp hin

/-- Characters other than angle brackets make no difference to whether a `>` comes soon. -/
theorem closesSoon_append (hopen : '<' ∉ w) (hclose : '>' ∉ w) :
    ClosesSoon (w ++ t) ↔ ClosesSoon t := by
  rw [closesSoon_iff, closesSoon_iff, List.takeWhile_append_of_pos (bne_of_not_mem hopen),
    List.mem_append, or_iff_right hclose]

theorem closesSoon_cons (hopen : c ≠ '<') (hclose : c ≠ '>') :
    ClosesSoon (c :: t) ↔ ClosesSoon t :=
  closesSoon_append (w := [c]) (by simpa using hopen.symm) (by simpa using hclose.symm)

theorem ClosesSoon.ne (h : ClosesSoon (c :: t)) : c ≠ '<' := by
  rintro rfl
  rw [closesSoon_iff] at h
  exact absurd h List.not_mem_nil

end ClosesSoon

section ReadsOn

variable {c quote : Char} {t w stretch past inner rest : Text}

/-- What reading on passes over stands in front of the `>` that it ends at. -/
theorem ReadsOn.eq_append (h : ReadsOn t inner rest) : t = inner ++ '>' :: rest := by
  induction h with
  | ends rest => rfl
  | quoted _ _ _ ih => simp [ih]
  | single _ _ _ ih => rw [ih, List.cons_append]

/-- A quoted stretch ends at the first such quote. -/
theorem OpensQuoted.closesSoon (h : OpensQuoted quote (stretch ++ quote :: past))
    (hstretch : quote ∉ stretch) : '<' ∉ stretch ∧ ClosesSoon past := by
  obtain ⟨-, stretch', past', heq, hstretch', hopen, hpast⟩ := h
  have hsame := congrArg (List.takeWhile (· != quote)) heq
  rw [takeWhile_append_cons (bne_of_not_mem hstretch) (bne_self_eq_false quote),
    takeWhile_append_cons (bne_of_not_mem hstretch') (bne_self_eq_false quote)] at hsame
  subst hsame
  obtain rfl := (List.cons.inj (List.append_cancel_left heq)).2
  exact ⟨hopen, hpast⟩

/-- Reading on stays in front of the next `<`. -/
theorem ReadsOn.not_mem (h : ReadsOn t inner rest) (ht : ClosesSoon t) : '<' ∉ inner := by
  induction h with
  | ends rest => exact List.not_mem_nil
  | quoted hopens hstretch _ ih =>
      obtain ⟨hopen, hpast⟩ := hopens.closesSoon hstretch
      have hquote := ht.ne.symm
      simp [hquote, hopen, ih hpast]
  | single hclose _ _ ih =>
      have hopen := ht.ne
      have hin := ih ((closesSoon_cons hopen hclose).mp ht)
      simp [hopen.symm, hin]

/-- Where a `>` comes soon, reading on finds an end. -/
theorem exists_readsOn (h : ClosesSoon t) : ∃ inner rest, ReadsOn t inner rest := by
  induction hn : t.length using Nat.strongRecOn generalizing t with
  | ind n ih =>
      cases t with
      | nil =>
          rw [closesSoon_iff] at h
          exact absurd h List.not_mem_nil
      | cons c t =>
          by_cases hclose : c = '>'
          · exact ⟨[], t, hclose ▸ ReadsOn.ends t⟩
          by_cases hopens : OpensQuoted c t
          · obtain ⟨-, stretch, past, rfl, hstretch, -, hpast⟩ := id hopens
            obtain ⟨inner, rest, hreads⟩ := ih past.length (by simp [← hn]; omega) hpast rfl
            exact ⟨_, rest, ReadsOn.quoted hopens hstretch hreads⟩
          · have hlater := (closesSoon_cons h.ne hclose).mp h
            obtain ⟨inner, rest, hreads⟩ := ih t.length (by simp [← hn]) hlater rfl
            exact ⟨c :: inner, rest, ReadsOn.single hclose hopens hreads⟩

end ReadsOn

section Read

variable {c quote : Char} {t w inner rest after slash name : Text}

/-- The quotes that are read to open a quoted stretch are those that open one. -/
theorem opensQuoted_iff :
    opensQuoted quote (t.takeWhile (· != '<')) = true ↔ OpensQuoted quote t := by
  simp only [opensQuoted, OpensQuoted, Bool.and_eq_true, Bool.or_eq_true, beq_iff_eq,
    List.contains_iff_mem]
  refine and_congr_right fun hquote => ⟨fun h => ?_, ?_⟩
  · have hmem : quote ∈ t.takeWhile (· != '<') := by
      by_contra hnone
      rw [List.dropWhile_eq_nil_iff.mpr (bne_of_not_mem hnone)] at h
      exact absurd h List.not_mem_nil
    obtain ⟨stretch, past, htake, hstretch⟩ := List.eq_append_cons_of_mem hmem
    rw [htake, dropWhile_append_cons (bne_of_not_mem hstretch) (bne_self_eq_false quote),
      List.drop_one, List.tail_cons] at h
    have hall : ∀ c ∈ stretch ++ quote :: past, (c != '<') = true := by
      rw [← htake]
      exact fun c hc => List.mem_takeWhile_imp (p := fun c => c != '<') hc
    refine ⟨stretch, past ++ t.dropWhile (· != '<'), ?_, hstretch, fun hopen => ?_, ?_⟩
    · rw [← List.cons_append, ← List.append_assoc, ← htake, List.takeWhile_append_dropWhile]
    · exact absurd (hall '<' (List.mem_append_left _ hopen)) (by decide)
    · rw [closesSoon_iff, List.takeWhile_append_of_pos fun c hc =>
        hall c (List.mem_append_right _ (List.mem_cons_of_mem _ hc))]
      exact List.mem_append_left _ h
  · rintro ⟨stretch, past, rfl, hstretch, hopen, hpast⟩
    have htake : (quote :: past).takeWhile (· != '<') = quote :: past.takeWhile (· != '<') :=
      List.takeWhile_cons_of_pos (by rcases hquote with rfl | rfl <;> decide)
    rw [List.takeWhile_append_of_pos (bne_of_not_mem hopen), htake,
      dropWhile_append_cons (bne_of_not_mem hstretch) (bne_self_eq_false quote), List.drop_one,
      List.tail_cons]
    exact closesSoon_iff.mp hpast

/-- The end that is read is the one that reading on finds. -/
theorem untilEnd_of_readsOn (h : ReadsOn t inner rest) (ht : ClosesSoon t) :
    untilEnd none (t.takeWhile (· != '<')) = inner := by
  induction h with
  | ends rest => rw [List.takeWhile_cons_of_pos (by decide), untilEnd, if_pos rfl]
  | @quoted quote stretch past inner rest hopens hstretch _ ih =>
      obtain ⟨hopen, hpast⟩ := hopens.closesSoon hstretch
      have hne := ht.ne
      have hclose : quote ≠ '>' := by
        rcases hopens.1 with rfl | rfl <;> decide
      have htake : (stretch ++ quote :: past).takeWhile (· != '<') =
          stretch ++ quote :: past.takeWhile (· != '<') := by
        rw [List.takeWhile_append_of_pos (bne_of_not_mem hopen),
          List.takeWhile_cons_of_pos (by simpa using hne)]
      rw [List.takeWhile_cons_of_pos (by simpa using hne), untilEnd, if_neg hclose,
        if_pos (opensQuoted_iff.mpr hopens), htake, untilEnd_quoted_append hstretch, ih hpast]
  | @single c t inner rest hclose hopens _ ih =>
      have hne := ht.ne
      rw [List.takeWhile_cons_of_pos (by simpa using hne), untilEnd, if_neg hclose,
        if_neg (opensQuoted_iff.not.mpr hopens), ih ((closesSoon_cons hne hclose).mp ht)]

/-- No name character comes behind the name. -/
theorem Parts.exists_stop (h : Parts after slash name inner rest) :
    ∃ d r, inner ++ '>' :: rest = d :: r ∧ isNameChar d = false := by
  have hmaximal := h.maximal
  cases inner with
  | nil => exact ⟨'>', rest, rfl, by decide⟩
  | cons d inner => exact ⟨d, inner ++ '>' :: rest, rfl, by simpa using hmaximal⟩

/-- The parts of a tag are what `read?` reads. -/
theorem Parts.read?_eq (h : Parts after slash name inner rest) :
    read? after = some (ofParts slash name inner) := by
  rw [h.eq, read?_name_append h.slash h.letter h.nameChars h.maximal (closesSoon_iff.mp h.closes)
    (untilEnd_of_readsOn h.reads h.closes)]
  rfl

/-- A text that starts a tag has the parts of one. -/
theorem Starts.exists_parts (h : Starts after) :
    ∃ slash name inner rest, Parts after slash name inner rest := by
  obtain ⟨⟨slash, c, r, rfl, hslash, halpha⟩, hcloses⟩ := h
  have hname : isNameChar c = true := by
    have hnum : c.isAlphanum = true := by
      rw [Char.isAlphanum, halpha, Bool.true_or]
    simp [isNameChar, isWordChar_of_isAlphanum hnum]
  have hchars : ∀ d ∈ (c :: r).takeWhile isNameChar, isNameChar d = true := fun d hd =>
    List.mem_takeWhile_imp hd
  have hslash' : '<' ∉ slash ∧ '>' ∉ slash := by
    rcases hslash with rfl | rfl <;> decide
  rw [closesSoon_append hslash'.1 hslash'.2, ← List.takeWhile_append_dropWhile (l := c :: r),
    closesSoon_append (not_mem_of_class hchars (by decide))
      (not_mem_of_class hchars (by decide))] at hcloses
  obtain ⟨inner, rest, hreads⟩ := exists_readsOn hcloses
  have hlater := hreads.eq_append
  refine ⟨slash, (c :: r).takeWhile isNameChar, inner, rest, ?_, hslash, ?_, hchars, ?_,
    hlater ▸ hcloses, hlater ▸ hreads⟩
  · rw [← hlater, List.takeWhile_append_dropWhile]
  · rw [List.takeWhile_cons_of_pos hname]
    exact halpha
  · rw [← hlater]
    exact all_head?_dropWhile isNameChar (c :: r)

/-- A tag is read only where one starts. -/
theorem starts_of_read? {tag : TagText} (h : read? after = some tag) : Starts after := by
  obtain ⟨d, w, htext, -, hopen⟩ := exists_toText_eq h
  obtain ⟨rest, hrest⟩ := exists_eq_of_read? h
  obtain ⟨named, -, hnamed, halpha, -⟩ := exists_of_read? h
  obtain ⟨c, r, rfl⟩ := List.exists_cons_of_ne_nil (l := named) (by rintro rfl; cases halpha)
  refine ⟨?_, d :: w, rest, ?_, hopen⟩
  · rcases hnamed with rfl | rfl
    · exact ⟨[], c, r, rfl, Or.inl rfl, halpha⟩
    · exact ⟨['/'], c, r, rfl, Or.inr rfl, halpha⟩
  · rw [htext] at hrest
    simpa using (List.cons.inj hrest).2

end Read

end TagText

end MarkupRepair
