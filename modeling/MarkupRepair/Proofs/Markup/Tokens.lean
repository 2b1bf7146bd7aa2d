import Mathlib.Data.List.TakeWhile
import MarkupRepair.Proofs.Markup.Extent
import MarkupRepair.Proofs.Markup.Scanning

/-!
# The text behind a token

Every token of a scan is read off a stretch of the masked text: a tag off the text that it begins,
an attribute off the body of its tag, a reference off what follows its ampersand. The scanned
characters of a tag have no other opening angle bracket, and so neither have its attributes.
-/

namespace MarkupRepair

section Runs

/-- A text up to a character of it. -/
theorem exists_eq_takeWhile_append_cons {q : Char} {t : Text} (h : q ∈ t) :
    ∃ rest, t = t.takeWhile (· != q) ++ q :: rest := by
  induction t with
  | nil => cases h
  | cons c r ih =>
      by_cases hc : c = q
      · exact ⟨r, by simp [hc]⟩
      · obtain ⟨rest, hrest⟩ := ih ((List.mem_cons.mp h).resolve_left (Ne.symm hc))
        refine ⟨rest, ?_⟩
        simp [hc, ← hrest]

/-- Trimming a text at its end takes away white space. -/
theorem exists_trimEnd_append (t : Text) :
    ∃ blanks, t = trimEnd t ++ blanks ∧ ∀ c ∈ blanks, isWhiteSpace c = true := by
  refine ⟨(t.reverse.takeWhile isWhiteSpace).reverse, ?_, ?_⟩
  · rw [trimEnd, ← List.reverse_append, List.takeWhile_append_dropWhile, List.reverse_reverse]
  · intro c hc
    exact List.mem_takeWhile_imp (List.mem_reverse.mp hc)

theorem all_head?_of_forall {p : Char → Bool} {t : Text} (h : ∀ c ∈ t, p c = true) :
    t.head?.all p = true := by
  cases t with
  | nil => rfl
  | cons c r => exact h c List.mem_cons_self

theorem all_getLast?_of_forall {p : Char → Bool} {t : Text} (h : ∀ c ∈ t, p c = true) :
    t.getLast?.all p = true := by
  cases hlast : t.getLast? with
  | none => rfl
  | some c => exact h c (List.mem_of_getLast? hlast)

theorem all_head?_dropWhile {α : Type} (p : α → Bool) (t : List α) :
    (t.dropWhile p).head?.all (fun c => !p c) = true := by
  induction t with
  | nil => rfl
  | cons c r ih =>
      by_cases hc : p c = true
      · rwa [List.dropWhile_cons_of_pos hc]
      · rw [List.dropWhile_cons_of_neg hc, List.head?_cons, Option.all_some, Bool.not_eq_true',
          Bool.eq_false_iff]
        exact hc

/-- A text up to a character that is not in a beginning of it. -/
theorem exists_eq_append_of_not_mem {c : Char} {a b u v : Text} (h : a ++ c :: b = u ++ v)
    (hc : c ∉ u) : ∃ m, a = u ++ m ∧ v = m ++ c :: b := by
  rcases List.append_eq_append_iff.mp h with ⟨m, rfl, hm⟩ | hsplit
  · cases m with
    | nil => exact ⟨[], by simp, hm.symm⟩
    | cons d m =>
        obtain ⟨rfl, -⟩ := List.cons.inj hm
        simp at hc
  · exact hsplit

end Runs

namespace TagText

/-- A tag of a text is read at a place of the text. -/
theorem exists_of_mem_all {offset o : Nat} {t : Text} {tag : TagText}
    (h : (o, tag) ∈ all offset t) :
    ∃ a b, t = a ++ b ∧ o = offset + Text.size a ∧ atStart? b = some tag := by
  induction t generalizing offset with
  | nil => cases h
  | cons c r ih =>
      have hlater : (o, tag) ∈ all (offset + c.utf8Size) r →
          ∃ a b, c :: r = a ++ b ∧ o = offset + Text.size a ∧ atStart? b = some tag := by
        intro hmem
        obtain ⟨a, b, rfl, rfl, htag⟩ := ih hmem
        exact ⟨c :: a, b, rfl, by rw [Text.size_cons, Nat.add_assoc], htag⟩
      rw [all] at h
      split at h
      next first hfirst =>
        rcases List.mem_cons.mp h with heq | hmem
        · obtain ⟨rfl, rfl⟩ := Prod.mk.inj heq
          exact ⟨[], c :: r, rfl, rfl, hfirst⟩
        · exact hlater hmem
      next => exact hlater h

/-- The tags of a text come in the order of their places. -/
theorem pairwise_all (offset : Nat) (t : Text) :
    (all offset t).Pairwise fun x y => x.1 < y.1 := by
  induction t generalizing offset with
  | nil => exact .nil
  | cons c r ih =>
      rw [all]
      split
      next =>
        refine List.pairwise_cons.mpr ⟨fun y hy => ?_, ih _⟩
        obtain ⟨a, b, -, hplace, -⟩ := exists_of_mem_all hy
        have hpos := c.utf8Size_pos
        dsimp only
        omega
      next => exact ih _

section Read

variable {r : Text} {tag : TagText}

/-- What a tag is read from: a name after an optional slash, and the text up to the next opening
angle bracket. -/
theorem exists_of_read? (h : read? r = some tag) :
    ∃ named region, (named = r ∨ r = '/' :: named) ∧ named.head?.any Char.isAlpha = true ∧
      tag.name = named.takeWhile isNameChar ∧
      region = (named.dropWhile isNameChar).takeWhile (· != '<') ∧
      tag.body ++ (if tag.trailingSlash then ['/'] else []) = untilEnd none region ∧
      tag.trailingSlash = ((untilEnd none region).getLast? == some '/') := by
  rw [read?, Option.ite_none_right_eq_some] at h
  obtain ⟨hread, htag⟩ := h
  have hslash : (if Text.startsWith r ['/'] then r.drop 1 else r) = r ∨
      r = '/' :: (if Text.startsWith r ['/'] then r.drop 1 else r) := by
    split
    next hstarts =>
      obtain ⟨rest, hrest⟩ := Option.isSome_iff_exists.mp hstarts
      rw [Text.afterPrefix?_eq_some_iff.mp hrest]
      exact Or.inr rfl
    next => exact Or.inl rfl
  generalize (if Text.startsWith r ['/'] then r.drop 1 else r) = named at hread htag hslash
  rw [Bool.and_eq_true] at hread
  obtain rfl := Option.some.inj htag
  refine ⟨named, _, hslash, hread.1, rfl, rfl, ?_, rfl⟩
  dsimp only
  split
  next hlast => exact List.dropLast_append_getLast? '/' (beq_iff_eq.mp hlast)
  next => exact List.append_nil _

/-- The name of a tag consists of name characters and begins with a letter. -/
theorem name_of_read? (h : read? r = some tag) : (∀ c ∈ tag.name, isNameChar c = true) ∧
    ∃ c s, tag.name = c :: s ∧ c.isAlpha = true := by
  obtain ⟨named, -, -, halpha, hname, -⟩ := exists_of_read? h
  rw [hname]
  refine ⟨fun c hc => List.mem_takeWhile_imp hc, ?_⟩
  cases named with
  | nil => cases halpha
  | cons c s =>
      rw [List.head?_cons, Option.any_some] at halpha
      have hnum : c.isAlphanum = true := by
        rw [Char.isAlphanum, halpha, Bool.true_or]
      have hc : isNameChar c = true := by
        simp [isNameChar, isWordChar_of_isAlphanum hnum]
      exact ⟨c, s.takeWhile isNameChar, List.takeWhile_cons_of_pos hc, halpha⟩

theorem mem_of_mem_untilEnd {quote : Option Char} {t : Text} {c : Char}
    (h : c ∈ untilEnd quote t) : c ∈ t := by
  fun_induction untilEnd quote t <;> simp_all <;> tauto

/-- The body of a tag has no opening angle bracket. -/
theorem bracket_not_mem_body (h : read? r = some tag) : '<' ∉ tag.body := by
  obtain ⟨named, region, -, -, -, hregion, hbody, -⟩ := exists_of_read? h
  intro hmem
  have huntil : '<' ∈ untilEnd none region := by
    rw [← hbody]
    exact List.mem_append_left _ hmem
  have hin := mem_of_mem_untilEnd huntil
  rw [hregion] at hin
  simpa using List.mem_takeWhile_imp hin

/-- The body of a tag without a slash at its end has no slash at its end. -/
theorem getLast?_body_ne_slash (h : read? r = some tag) (hslash : tag.trailingSlash = false) :
    tag.body.getLast? ≠ some '/' := by
  obtain ⟨named, region, -, -, -, -, hbody, hlast⟩ := exists_of_read? h
  rw [hslash] at hbody hlast
  rw [if_neg Bool.false_ne_true, List.append_nil] at hbody
  rw [hbody]
  exact fun heq => by simp [heq] at hlast

/-- The characters of a tag: an opening angle bracket, then neither another one nor an
exclamation mark in front, and a closing one at the end. -/
theorem exists_toText_eq (h : read? r = some tag) :
    ∃ d w, tag.toText = '<' :: d :: (w ++ ['>']) ∧ d ≠ '!' ∧ '<' ∉ d :: w := by
  obtain ⟨hchars, c, s, hcons, halpha⟩ := name_of_read? h
  have hname : '<' ∉ tag.name := not_mem_of_class hchars (by decide)
  have hbody := bracket_not_mem_body h
  have hfirst : c ≠ '!' := ne_of_class halpha (by decide)
  have hclose : '<' ∉ (if tag.trailingSlash then ['/'] else [] : Text) := by
    split <;> decide
  rw [hcons] at hname
  unfold toText
  rw [hcons]
  cases tag.leadingSlash with
  | true =>
      refine ⟨'/', c :: s ++ tag.body ++ (if tag.trailingSlash then ['/'] else []), ?_, by decide,
        ?_⟩
      · simp
      · simp_all
  | false =>
      refine ⟨c, s ++ tag.body ++ (if tag.trailingSlash then ['/'] else []), ?_, hfirst, ?_⟩
      · simp
      · simp_all

/-- The name of a tag that is not a closing one stands right after the bracket, and no name
character comes after it. -/
theorem exists_name_append (h : read? r = some tag) (hslash : tag.leadingSlash = false) :
    ∃ w, tag.toText = '<' :: (tag.name ++ w) ∧ w.head?.any (fun c => !isNameChar c) = true := by
  obtain ⟨-, c, s, hcons, halpha⟩ := name_of_read? h
  obtain ⟨named, region, hnamed, -, hname, -⟩ := exists_of_read? h
  obtain ⟨rest, hrest⟩ := exists_eq_of_read? h
  have hparts : r = tag.name ++ (tag.body ++ (if tag.trailingSlash then ['/'] else []) ++
      '>' :: rest) := by
    simpa [toText, hslash] using (List.cons.inj hrest).2
  have hsame : named = r := by
    refine hnamed.elim id fun hslash => ?_
    rw [hslash, hcons, List.cons_append] at hparts
    exact absurd (List.cons.inj hparts).1.symm (ne_of_class halpha (by decide))
  have hlater : r.dropWhile isNameChar =
      tag.body ++ (if tag.trailingSlash then ['/'] else []) ++ '>' :: rest := by
    refine (List.append_right_inj tag.name).mp ?_
    rw [← hparts, hname, hsame, List.takeWhile_append_dropWhile]
  have hstop := all_head?_dropWhile isNameChar r
  rw [hlater] at hstop
  refine ⟨tag.body ++ (if tag.trailingSlash then ['/'] else []) ++ ['>'], ?_, ?_⟩
  · simp [toText, hslash]
  · cases hinner : tag.body ++ (if tag.trailingSlash then ['/'] else []) with
    | nil => decide
    | cons d w =>
        rw [hinner] at hstop
        exact hstop

/-- The characters of a tag after the first one have no opening angle bracket. -/
theorem bracket_not_mem_toText_tail (h : read? r = some tag) : '<' ∉ tag.toText.tail := by
  obtain ⟨d, w, htext, -, hnone⟩ := exists_toText_eq h
  rw [htext]
  simpa using hnone

end Read

/-- Tags of a text do not overlap, and there is one at a place only. -/
theorem apart_of_mem_all {offset o o' : Nat} {t : Text} {tag tag' : TagText}
    (h : (o, tag) ∈ all offset t) (h' : (o', tag') ∈ all offset t) :
    o' < o ∨ (o' = o ∧ tag' = tag) ∨ o + Text.size tag.toText ≤ o' := by
  obtain ⟨a, b, rfl, rfl, hstart⟩ := exists_of_mem_all h
  obtain ⟨a', b', heq, rfl, hstart'⟩ := exists_of_mem_all h'
  obtain ⟨r, rfl, hread⟩ := exists_read?_of_atStart? hstart
  obtain ⟨r', rfl, -⟩ := exists_read?_of_atStart? hstart'
  obtain ⟨rest, hrest⟩ := exists_eq_of_read? hread
  rcases List.append_eq_append_iff.mp heq with ⟨m, rfl, hm⟩ | ⟨m, rfl, hm⟩
  · cases m with
    | nil =>
        rw [List.nil_append] at hm
        rw [hm, hstart'] at hstart
        simp [Option.some.inj hstart]
    | cons c m =>
        obtain ⟨d, w, htext, -, hnone⟩ := exists_toText_eq hread
        rw [htext] at hrest
        obtain ⟨rfl, hr⟩ := List.cons.inj hm
        have hsplit : m ++ '<' :: r' = d :: (w ++ ['>']) ++ rest :=
          hr.symm.trans (List.cons.inj hrest).2
        obtain ⟨x, rfl, -⟩ := exists_eq_append_of_not_mem hsplit (by simpa using hnone)
        refine Or.inr (Or.inr ?_)
        rw [htext]
        simp only [Text.size_append, Text.size_cons]
        omega
  · cases m with
    | nil =>
        rw [List.nil_append] at hm
        rw [← hm, hstart'] at hstart
        simp [Option.some.inj hstart]
    | cons c m =>
        have hpos := c.utf8Size_pos
        refine Or.inl ?_
        rw [Text.size_append, Text.size_cons]
        omega

end TagText

namespace ValueText

theorem afterRun_prefix (t : Text) : (afterRun t).2 <+: t := by
  unfold afterRun
  split
  next hquote =>
    obtain ⟨rest, hrest⟩ := exists_eq_takeWhile_append_cons (List.contains_iff_mem.mp hquote)
    exact ⟨rest, by rw [List.append_assoc]; exact hrest.symm⟩
  next => exact List.takeWhile_prefix _

/-- A value begins what follows its gap. White space comes after a value that no quote ends, if
anything does. -/
theorem exists_read_append (t : Text) : ∃ rest, t = (read t).gap ++ ((read t).raw ++ rest) ∧
    ((read t).quoting = .unquoted ∨ (read t).quoting = .unterminated →
      rest.head?.all isWhiteSpace = true) := by
  have hgap := takeWhile_append_trimStart t
  have hblank : (t.takeWhile isWhiteSpace).head?.all isWhiteSpace = true :=
    all_head?_of_forall fun c hc => List.mem_takeWhile_imp hc
  unfold read
  dsimp only
  generalize t.takeWhile isWhiteSpace = gap at hgap hblank
  generalize trimStart t = written at hgap
  subst hgap
  split
  next => exact ⟨gap, by simp, fun _ => hblank⟩
  next q inner =>
    split
    next =>
      split
      next =>
        obtain ⟨rest, hrest⟩ := afterRun_prefix
          ((q :: inner).drop ((q :: inner).takeWhile (· == q)).length)
        refine ⟨rest, ?_, by rintro (h | h) <;> cases h⟩
        have hsplit :=
          List.prefix_iff_eq_append.mp (List.takeWhile_prefix (l := q :: inner) (· == q))
        rw [← hrest, ← List.append_assoc] at hsplit
        rw [hsplit]
      next =>
        split
        next hclosed =>
          obtain ⟨rest, hrest⟩ := exists_eq_takeWhile_append_cons (List.contains_iff_mem.mp hclosed)
          refine ⟨rest, ?_, ?_⟩
          · nth_rewrite 1 [hrest]
            simp
          · dsimp only
            split <;> (rintro (h | h) <;> cases h)
        next =>
          obtain ⟨blanks, hblanks, hall⟩ := exists_trimEnd_append (q :: inner)
          exact ⟨blanks, by rw [← hblanks], fun _ => all_head?_of_forall hall⟩
    next =>
      cases gap with
      | nil =>
          refine ⟨(q :: inner).dropWhile fun c => !isWhiteSpace c, ?_, fun _ => ?_⟩
          · simp only [List.isEmpty_nil, if_true, List.nil_append, List.takeWhile_append_dropWhile]
          · simpa using all_head?_dropWhile (fun c => !isWhiteSpace c) (q :: inner)
      | cons c r => exact ⟨c :: r ++ (q :: inner), rfl, fun _ => hblank⟩

/-- There is white space in the gap, and none unless a quote begins the value. -/
theorem gap_of_read (t : Text) : (∀ c ∈ (read t).gap, isWhiteSpace c = true) ∧
    ((read t).gap ≠ [] → (read t).raw.head?.any (fun c => c == '"' || c == '\'') = true) := by
  have hgap : ∀ c ∈ t.takeWhile isWhiteSpace, isWhiteSpace c = true :=
    fun c hc => List.mem_takeWhile_imp hc
  unfold read
  dsimp only
  split
  next => simp
  next q inner hwritten =>
    rw [hwritten]
    split
    next hquote =>
      have hq : (q == '"' || q == '\'') = true := by
        simpa using hquote
      split
      next => exact ⟨hgap, fun _ => by simpa using hq⟩
      next =>
        split
        next => exact ⟨hgap, fun _ => hq⟩
        next =>
          refine ⟨hgap, fun _ => ?_⟩
          dsimp only
          obtain ⟨blanks, hblanks, hall⟩ := exists_trimEnd_append (q :: inner)
          cases hraw : trimEnd (q :: inner) with
          | nil =>
              rw [hraw, List.nil_append] at hblanks
              have hblank := hall q (hblanks ▸ List.mem_cons_self)
              rw [Bool.or_eq_true, beq_iff_eq, beq_iff_eq] at hq
              rcases hq with rfl | rfl <;> cases hblank
          | cons d raw =>
              rw [hraw] at hblanks
              rw [(List.cons.inj hblanks).1] at hq
              exact hq
    next => exact ⟨by simp, fun h => absurd rfl h⟩

/-- A corrupted opening is a run of three or more double quotes after the gap, and the value is read
after the run. -/
theorem exists_run_of_corrupted {t : Text} {quotes : Nat}
    (h : (read t).quoting = .corrupted quotes) :
    ∃ run tail, t = (read t).gap ++ (run ++ tail) ∧ run.length = quotes ∧ 3 ≤ quotes ∧
      (∀ c ∈ run, c = '"') ∧ tail.head? ≠ some '"' ∧ run <+: (read t).raw ∧
        (read t).value = (afterRun tail).1 := by
  have hdrop : (trimStart t).drop ((trimStart t).takeWhile (· == '"')).length =
      (trimStart t).dropWhile (· == '"') := by
    have hrun := List.prefix_iff_eq_append.mp
      (List.takeWhile_prefix (l := trimStart t) (· == '"'))
    exact List.append_cancel_left (hrun.trans List.takeWhile_append_dropWhile.symm)
  have hread : (read t).gap = t.takeWhile isWhiteSpace ∧
      ((trimStart t).takeWhile (· == '"')).length = quotes ∧ 3 ≤ quotes ∧
        (trimStart t).takeWhile (· == '"') <+: (read t).raw ∧
          (read t).value = (afterRun ((trimStart t).dropWhile (· == '"'))).1 := by
    rw [← hdrop]
    unfold read at h ⊢
    dsimp only at h ⊢
    split at h
    next => cases h
    next q inner _ =>
      split at h
      next hquote =>
        split at h
        next hlong =>
          rw [Bool.and_eq_true, decide_eq_true_eq, decide_eq_true_eq] at hlong
          obtain ⟨rfl, hlong⟩ := hlong
          obtain rfl := Quoting.corrupted.inj h
          rw [if_pos hquote, if_pos (by simpa using hlong)]
          exact ⟨rfl, rfl, hlong, List.prefix_append _ _, rfl⟩
        next =>
          split at h
          next =>
            dsimp only at h
            split at h <;> cases h
          next => cases h
      next => cases h
  obtain ⟨hgap, hlength, hlong, hprefix, hvalue⟩ := hread
  refine ⟨_, (trimStart t).dropWhile (· == '"'), ?_, hlength, hlong, fun c hc => ?_,
    fun hhead => ?_, hprefix, hvalue⟩
  · rw [hgap, List.takeWhile_append_dropWhile, takeWhile_append_trimStart]
  · exact beq_iff_eq.mp (List.mem_takeWhile_imp (p := fun c => c == '"') hc)
  · have hstop := all_head?_dropWhile (· == '"') (trimStart t)
    rw [hhead] at hstop
    cases hstop

end ValueText

namespace AttributeText

/-- An attribute of a tag body is read after white space of the body. -/
theorem exists_of_mem_all {offset skip o : Nat} {body : Text} {a : AttributeText}
    (h : (o, a) ∈ all offset skip body) :
    ∃ p c q, body = p ++ c :: q ∧ isWhiteSpace c = true ∧ o = offset + Text.size (p ++ [c]) ∧
      read? q = some a := by
  induction body generalizing offset skip with
  | nil => cases skip <;> cases h
  | cons c r ih =>
      have hlater : ∀ skip, (o, a) ∈ all (offset + c.utf8Size) skip r →
          ∃ p d q, c :: r = p ++ d :: q ∧ isWhiteSpace d = true ∧
            o = offset + Text.size (p ++ [d]) ∧ read? q = some a := by
        intro skip hmem
        obtain ⟨p, d, q, rfl, hd, rfl, hread⟩ := ih hmem
        exact ⟨c :: p, d, q, rfl, hd, by rw [List.cons_append, Text.size_cons, Nat.add_assoc],
          hread⟩
      rw [all.eq_def] at h
      dsimp only at h
      split at h
      next => exact hlater _ h
      next =>
        split at h
        next first hfirst =>
          rw [Option.ite_none_right_eq_some] at hfirst
          rcases List.mem_cons.mp h with heq | hmem
          · obtain ⟨rfl, rfl⟩ := Prod.mk.inj heq
            exact ⟨[], c, r, rfl, hfirst.1, rfl, hfirst.2⟩
          · exact hlater _ hmem
        next => exact hlater _ h

/-- The name of an attribute consists of name characters. -/
theorem name_of_read? {t : Text} {a : AttributeText} (h : read? t = some a) :
    ∀ c ∈ a.name, isNameChar c = true := by
  unfold read? at h
  split at h
  next =>
    dsimp only at h
    split at h
    next =>
      obtain rfl := Option.some.inj h
      exact fun c hc => List.mem_takeWhile_imp hc
    next => cases h
  next => cases h

/-- There is nothing but white space between the name and the `=` of an attribute. -/
theorem space_of_read? {t : Text} {a : AttributeText} (h : read? t = some a) :
    ∀ c ∈ a.space, isWhiteSpace c = true := by
  unfold read? at h
  split at h
  next =>
    dsimp only at h
    split at h
    next =>
      obtain rfl := Option.some.inj h
      exact fun c hc => List.mem_takeWhile_imp hc
    next => cases h
  next => cases h

/-- An attribute begins the text that it is read from. -/
theorem exists_toText_append {t : Text} {a : AttributeText} (h : read? t = some a) :
    ∃ rest, t = a.toText ++ rest ∧
      a.written = ValueText.read (a.written.gap ++ (a.written.raw ++ rest)) ∧
      (a.written.quoting = .unquoted ∨ a.written.quoting = .unterminated →
        rest.head?.all isWhiteSpace = true) := by
  unfold read? at h
  split at h
  next =>
    dsimp only at h
    split at h
    next afterEquals hequals =>
      obtain rfl := Option.some.inj h
      obtain ⟨rest, hrest, hblank⟩ := ValueText.exists_read_append afterEquals
      refine ⟨rest, ?_, by rw [← hrest], hblank⟩
      have hspace := takeWhile_append_trimStart (t.dropWhile isNameChar)
      calc
        t = t.takeWhile isNameChar ++ t.dropWhile isNameChar :=
          List.takeWhile_append_dropWhile.symm
        _ = t.takeWhile isNameChar ++ ((t.dropWhile isNameChar).takeWhile isWhiteSpace ++
            '=' :: ((ValueText.read afterEquals).gap ++
              ((ValueText.read afterEquals).raw ++ rest))) := by
          rw [← hrest, ← hequals, hspace]
        _ = _ := by
          simp [toText, beforeValue]
    next => cases h
  next => cases h

/-- Attributes are found after the characters to be skipped and white space. -/
theorem lt_of_mem_all {offset skip o : Nat} {body : Text} {a : AttributeText}
    (h : (o, a) ∈ all offset skip body) : offset + Text.size (body.take skip) < o := by
  induction body generalizing offset skip with
  | nil => cases skip <;> cases h
  | cons c r ih =>
      have hpos := c.utf8Size_pos
      rw [all.eq_def] at h
      dsimp only at h
      split at h
      next skip =>
        have hlt := ih h
        rw [List.take_succ_cons, Text.size_cons]
        omega
      next =>
        rw [List.take_zero, Text.size_nil, Nat.add_zero]
        split at h
        next =>
          rcases List.mem_cons.mp h with heq | hmem
          · rw [(Prod.mk.inj heq).1]
            omega
          · have hlt := ih hmem
            omega
        next =>
          have hlt := ih h
          omega

/-- Attributes of a tag do not overlap or touch. -/
theorem pairwise_all (offset skip : Nat) (body : Text) :
    (all offset skip body).Pairwise fun x y => x.1 + Text.size x.2.toText < y.1 := by
  induction body generalizing offset skip with
  | nil => cases skip <;> exact List.Pairwise.nil
  | cons c r ih =>
      rw [all.eq_def]
      dsimp only
      split
      next => exact ih _ _
      next =>
        split
        next a hread =>
          rw [Option.ite_none_right_eq_some] at hread
          obtain ⟨rest, hrest, -⟩ := exists_toText_append hread.2
          refine List.pairwise_cons.mpr ⟨fun y hy => ?_, ih _ _⟩
          have hlt := lt_of_mem_all hy
          rwa [hrest, List.take_left] at hlt
        next => exact ih _ _

end AttributeText

namespace EntityText

/-- A reference of a text is read after an ampersand of the text. -/
theorem exists_of_mem_all {offset o : Nat} {t : Text} {e : EntityText}
    (h : (o, e) ∈ all offset t) :
    ∃ a b, t = a ++ '&' :: b ∧ o = offset + Text.size a ∧ e = read b := by
  induction t generalizing offset with
  | nil => cases h
  | cons c r ih =>
      have hlater : (o, e) ∈ all (offset + c.utf8Size) r →
          ∃ a b, c :: r = a ++ '&' :: b ∧ o = offset + Text.size a ∧ e = read b := by
        intro hmem
        obtain ⟨a, b, rfl, rfl, he⟩ := ih hmem
        exact ⟨c :: a, b, rfl, by rw [Text.size_cons, Nat.add_assoc], he⟩
      rw [all] at h
      split at h
      next hc =>
        subst hc
        rcases List.mem_cons.mp h with heq | hmem
        · obtain ⟨rfl, rfl⟩ := Prod.mk.inj heq
          exact ⟨[], r, rfl, rfl, rfl⟩
        · exact hlater hmem
      next => exact hlater h

/-- A reference whose name is followed by no further name character is terminated by the semicolon
after its name only. -/
theorem semicolon_of_terminated {name w : Text} (hname : ∀ c ∈ name, isEntityNameChar c = true)
    (hw : w.head?.any isEntityNameChar = false) (h : Terminated ('&' :: (name ++ w))) :
    name ≠ [] ∧ w.head? = some ';' := by
  obtain ⟨name', tail, hname', heq⟩ := h.1 rfl
  have hstop : isEntityNameChar ';' = false := by
    decide
  have htake := congrArg (List.takeWhile isEntityNameChar) heq
  rw [takeWhile_append_cons hname'.2 hstop] at htake
  cases w with
  | nil =>
      rw [List.append_nil, List.takeWhile_eq_self_iff.mpr hname] at htake
      subst htake
      have hlength := congrArg List.length heq
      simp at hlength
  | cons e w =>
      rw [takeWhile_append_cons hname hw] at htake
      subst htake
      exact ⟨hname'.1, by rw [(List.cons.inj (List.append_cancel_left heq)).1, List.head?_cons]⟩

end EntityText

section Scanned

variable {t : Text}

/-- A tag of a scan is read from the masked text. -/
theorem exists_of_mem_tags {token : TagToken} (h : token ∈ (scan t).tags) :
    ∃ a b tag, mask t = a ++ '<' :: b ∧ TagText.read? b = some tag ∧
      token = TagToken.ofText (LineIndex.ofText t) (Text.size a, tag) := by
  obtain ⟨⟨o, tag⟩, hmem, rfl⟩ := List.mem_map.mp h
  obtain ⟨a, b, hmask, rfl, htag⟩ := TagText.exists_of_mem_all hmem
  obtain ⟨r, rfl, hread⟩ := TagText.exists_read?_of_atStart? htag
  rw [Nat.zero_add]
  exact ⟨a, r, tag, hmask, hread, rfl⟩

/-- The root of a scan is read from the masked text, with a name right after its bracket. -/
theorem exists_of_root? {root : TagToken} (h : (scan t).root? = some root) :
    ∃ a b tag, mask t = a ++ '<' :: b ∧ TagText.read? b = some tag ∧ tag.leadingSlash = false ∧
      root = TagToken.ofText (LineIndex.ofText t) (Text.size a, tag) := by
  have hkind := List.find?_some h
  obtain ⟨a, b, tag, hmask, hread, rfl⟩ := exists_of_mem_tags (List.mem_of_find?_eq_some h)
  rw [Bool.and_eq_true, bne_iff_ne] at hkind
  exact ⟨a, b, tag, hmask, hread, TagText.leadingSlash_eq_false hkind.2, rfl⟩

/-- An attribute of a tag is read from the body of the tag. -/
theorem exists_of_mem_attributes {index : LineIndex} {o : Nat} {tag : TagText}
    {token : AttributeToken} (h : token ∈ (TagToken.ofText index (o, tag)).attributes) :
    tag.kind ≠ .closing ∧ ∃ p c q a, tag.body = p ++ c :: q ∧ isWhiteSpace c = true ∧
      AttributeText.read? q = some a ∧ token = AttributeToken.ofText index
        (o + tag.bodyOffset + Text.size (p ++ [c]), a) := by
  simp only [TagToken.ofText] at h
  split at h
  next => cases h
  next hkind =>
    obtain ⟨⟨o', a⟩, hmem, rfl⟩ := List.mem_map.mp h
    obtain ⟨p, c, q, hbody, hc, rfl, hread⟩ := AttributeText.exists_of_mem_all hmem
    exact ⟨hkind, p, c, q, a, hbody, hc, hread, rfl⟩

/-- A reference of a scan is read from the masked text. -/
theorem exists_of_mem_entities {token : EntityToken} (h : token ∈ (scan t).entities) :
    ∃ a b, mask t = a ++ '&' :: b ∧
      token = EntityToken.ofText (LineIndex.ofText t) (Text.size a, EntityText.read b) := by
  obtain ⟨⟨o, e⟩, hmem, rfl⟩ := List.mem_map.mp h
  obtain ⟨a, b, hmask, rfl, rfl⟩ := EntityText.exists_of_mem_all hmem
  rw [Nat.zero_add]
  exact ⟨a, b, hmask, rfl⟩

/-- The value of a scanned attribute has no opening angle bracket. -/
theorem bracket_not_mem_raw {token : TagToken} {a : AttributeToken}
    (htoken : token ∈ (scan t).tags) (ha : a ∈ token.attributes) : '<' ∉ a.raw := by
  obtain ⟨_, _, tag, -, hread, rfl⟩ := exists_of_mem_tags htoken
  obtain ⟨-, p, c, q, text, hbody, -, htext, rfl⟩ := exists_of_mem_attributes ha
  obtain ⟨rest, rfl, -⟩ := AttributeText.exists_toText_append htext
  intro hmem
  refine TagText.bracket_not_mem_body hread ?_
  rw [hbody]
  refine List.mem_append_right _ (List.mem_cons_of_mem _ (List.mem_append_left _ ?_))
  exact List.mem_append_right _ hmem

/-- The name of a scanned tag has no opening angle bracket. -/
theorem bracket_not_mem_name {token : TagToken} (h : token ∈ (scan t).tags) :
    '<' ∉ token.name := by
  obtain ⟨_, _, tag, -, hread, rfl⟩ := exists_of_mem_tags h
  intro hmem
  obtain ⟨c, hc, hlower⟩ := List.mem_map.mp hmem
  obtain rfl := eq_of_toLower_eq hlower (by decide)
  exact not_mem_of_class (TagText.name_of_read? hread).1 (by decide) hc

/-- A scanned reference is an ampersand and a name. -/
theorem exists_text_eq {token : EntityToken} (h : token ∈ (scan t).entities) :
    ∃ name, token.text = '&' :: name ∧ ∀ c ∈ name, isEntityNameChar c = true := by
  obtain ⟨_, b, -, rfl⟩ := exists_of_mem_entities h
  exact ⟨b.takeWhile isEntityNameChar, rfl, fun c hc => List.mem_takeWhile_imp hc⟩

/-- Where an attribute of a scanned tag was found: the tag among the tags of the masked text, and
the attribute among those of the body of the tag. -/
def FoundAt (t : Text) (tag : TagToken) (a : AttributeToken) (offset : Nat)
    (written : AttributeText) : Prop :=
  ∃ place text, (place, text) ∈ TagText.all 0 (mask t) ∧
    tag = TagToken.ofText (LineIndex.ofText t) (place, text) ∧ text.leadingSlash = false ∧
    (offset, written) ∈ AttributeText.all (place + text.bodyOffset) 0 text.body ∧
    a = AttributeToken.ofText (LineIndex.ofText t) (offset, written)

theorem exists_foundAt {tag : TagToken} {a : AttributeToken} (htag : tag ∈ (scan t).tags)
    (ha : a ∈ tag.attributes) : ∃ offset written, FoundAt t tag a offset written := by
  obtain ⟨⟨place, text⟩, hmem, rfl⟩ := List.mem_map.mp htag
  simp only [TagToken.ofText] at ha
  split at ha
  next => cases ha
  next hkind =>
    obtain ⟨⟨offset, written⟩, hfound, rfl⟩ := List.mem_map.mp ha
    exact ⟨offset, written, place, text, hmem, rfl, TagText.leadingSlash_eq_false hkind, hfound,
      rfl⟩

namespace FoundAt

variable {tag tag' : TagToken} {a a' : AttributeToken} {o o' : Nat}
  {written written' : AttributeText}

theorem token_eq (h : FoundAt t tag a o written) :
    a = AttributeToken.ofText (LineIndex.ofText t) (o, written) := by
  obtain ⟨_, _, _, _, _, _, heq⟩ := h
  exact heq

/-- An attribute is read from a stretch of the masked text. -/
theorem exists_mask (h : FoundAt t tag a o written) : ∃ front q rest,
    mask t = front ++ (q ++ rest) ∧ o = Text.size front ∧
      AttributeText.read? q = some written := by
  obtain ⟨place, text, hmem, -, hslash, hfound, -⟩ := h
  obtain ⟨before, after, hmask, rfl, hstart⟩ := TagText.exists_of_mem_all hmem
  obtain ⟨later, rfl⟩ := TagText.exists_toText_append hstart
  obtain ⟨p, c, q, hbody, -, rfl, hread⟩ := AttributeText.exists_of_mem_all hfound
  have hone : '<'.utf8Size = 1 := rfl
  refine ⟨before ++ '<' :: (text.name ++ (p ++ [c])), q,
    (if text.trailingSlash then ['/'] else []) ++ '>' :: later, ?_, ?_, hread⟩
  · rw [hmask, TagText.toText, hslash, hbody]
    simp
  · simp [TagText.bodyOffset, hslash, hone, Nat.add_assoc]

/-- An attribute stands inside of its tag. -/
theorem inside (h : FoundAt t tag a o written) :
    tag.span.start < o ∧ o + Text.size written.toText < tag.span.stop := by
  obtain ⟨place, text, -, rfl, hslash, hfound, -⟩ := h
  obtain ⟨p, c, q, hbody, -, rfl, hread⟩ := AttributeText.exists_of_mem_all hfound
  obtain ⟨rest, rfl, -⟩ := AttributeText.exists_toText_append hread
  have hone : '<'.utf8Size = 1 := rfl
  have hone' : '>'.utf8Size = 1 := rfl
  simp only [TagToken.ofText, TagText.size, TagText.toText, TagText.bodyOffset, hbody, hslash,
    Text.size_append, Text.size_cons, Text.size_nil, hone, hone', Bool.false_eq_true, if_false]
  omega

/-- Attributes do not overlap. -/
theorem apart (h : FoundAt t tag a o written) (h' : FoundAt t tag' a' o' written') (hlt : o < o') :
    o + Text.size written.toText ≤ o' := by
  have hinside := h.inside
  have hinside' := h'.inside
  obtain ⟨place, text, hmem, rfl, -, hfound, -⟩ := h
  obtain ⟨place', text', hmem', rfl, -, hfound', -⟩ := h'
  simp only [TagToken.ofText, TagText.size] at hinside hinside'
  rcases TagText.apart_of_mem_all hmem hmem' with hbefore | ⟨rfl, rfl⟩ | hafter
  · rcases TagText.apart_of_mem_all hmem' hmem with h | ⟨rfl, -⟩ | h
    all_goals omega
  · let Apart := fun x y : Nat × AttributeText => x.1 + Text.size x.2.toText < y.1
    have hsymm : Std.Symm fun x y => Apart x y ∨ Apart y x := ⟨fun _ _ h => h.symm⟩
    have heither := (AttributeText.pairwise_all (place' + text'.bodyOffset) 0 text'.body).imp
      (S := fun x y => Apart x y ∨ Apart y x) Or.inl
    have hne : (o, written) ≠ (o', written') := by
      simp [Nat.ne_of_lt hlt]
    rcases heither.forall hfound hfound' hne with h | h
    · exact Nat.le_of_lt h
    · exact absurd (Nat.lt_of_le_of_lt (Nat.le_add_right o' _) h) (Nat.lt_asymm hlt)
  · omega

end FoundAt

/-- The name of a scanned attribute consists of name characters. -/
theorem nameChars_of_mem_attributes {tag : TagToken} {a : AttributeToken}
    (htag : tag ∈ (scan t).tags) (ha : a ∈ tag.attributes) : ∀ c ∈ a.name, isNameChar c = true := by
  obtain ⟨_, written, hfound⟩ := exists_foundAt htag ha
  obtain ⟨_, _, _, -, -, hread⟩ := hfound.exists_mask
  rw [hfound.token_eq]
  exact AttributeText.name_of_read? hread

end Scanned

end MarkupRepair
