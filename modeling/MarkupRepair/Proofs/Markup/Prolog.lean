import Mathlib.Data.List.Basic
import Mathlib.Data.List.TakeWhile
import MarkupRepair.Markup.Scan
import MarkupRepair.Proofs.Markup.Entity
import MarkupRepair.Proofs.Text.Parts

/-!
# XML declarations of version 1.0

What such a declaration is, said of its parts. An XML declaration conforms exactly when it has these
parts. Before that it is cut out of the document, and the cut goes no further than the first line:
so a document has a conforming declaration exactly when it begins with one that has no line feed.
-/

namespace MarkupRepair

/-- An XML declaration of version 1.0 in its parts. -/
structure VersionOneDeclaration where
  /-- White space behind the `<?xml`. -/
  gap : Text
  /-- White space between `version` and the `=`. -/
  beforeEquals : Text
  /-- White space behind the `=`. -/
  afterEquals : Text
  /-- The quote in front of the version. -/
  opening : Char
  /-- The quote behind the version. -/
  closing : Char
  /-- What stands between the version and the final `?>`. -/
  more : Text
  /-- There is white space behind the `<?xml`. -/
  gap_ne_nil : gap ≠ []
  /-- White space is nothing but white space. -/
  blank : ∀ c ∈ gap ++ beforeEquals ++ afterEquals, isWhiteSpace c = true
  /-- The version stands in quotes, not necessarily in the same ones. -/
  quoted : ∀ c ∈ [opening, closing], c = '"' ∨ c = '\''
  /-- No angle bracket comes before the final one. -/
  plain : ∀ c ∈ more, c ≠ '<' ∧ c ≠ '>'

namespace VersionOneDeclaration

/-- The declaration behind its `<?xml` up to the version. -/
def assignment (d : VersionOneDeclaration) : Text :=
  d.gap ++ ("version".toList ++ (d.beforeEquals ++ '=' :: d.afterEquals))

/-- The version in its quotes and what follows it. -/
def version (d : VersionOneDeclaration) : Text :=
  d.opening :: '1' :: '.' :: '0' :: d.closing :: (d.more ++ ['?', '>'])

/-- The characters of the declaration. -/
def toText (d : VersionOneDeclaration) : Text :=
  "<?xml".toList ++ (d.assignment ++ d.version)

/-- The declaration without its last character. -/
def front (d : VersionOneDeclaration) : Text :=
  "<?xml".toList ++ (d.assignment ++
    d.opening :: '1' :: '.' :: '0' :: d.closing :: (d.more ++ ['?']))

variable (d : VersionOneDeclaration)

theorem toText_eq : d.toText = d.front ++ ['>'] := by
  simp [toText, front, version]

/-- The only closing bracket is the last character. -/
theorem bracket_not_mem_front : '>' ∉ d.front := by
  have hgap : '>' ∉ d.gap ++ d.beforeEquals ++ d.afterEquals :=
    not_mem_of_class d.blank (by decide)
  have hquotes : '>' ≠ d.opening ∧ '>' ≠ d.closing := by
    have hne : ∀ c ∈ [d.opening, d.closing], '>' ≠ c := by
      intro c hc
      rcases d.quoted c hc with rfl | rfl <;> decide
    exact ⟨hne _ (by simp), hne _ (by simp)⟩
  have hmore : '>' ∉ d.more := fun hmem => (d.plain _ hmem).2 rfl
  simp only [List.mem_append, not_or] at hgap
  simp [front, assignment, hgap, hquotes, hmore]

end VersionOneDeclaration

section Conforming

variable {t : Text}

/-- A version is declared by a text that has the version in quotes in front and no angle bracket but
the last one. -/
theorem declaresVersionOne_iff : declaresVersionOne t = true ↔ ∃ opening closing more,
    t = opening :: '1' :: '.' :: '0' :: closing :: (more ++ ['?', '>']) ∧
      (∀ c ∈ [opening, closing], c = '"' ∨ c = '\'') ∧ ∀ c ∈ more, c ≠ '<' ∧ c ≠ '>' := by
  constructor
  · intro h
    unfold declaresVersionOne at h
    split at h
    next opening closing rest =>
      simp only [Bool.and_eq_true, Bool.or_eq_true, beq_iff_eq] at h
      obtain ⟨hquotes, hrest⟩ := h
      split at hrest
      next middle hreverse =>
        refine ⟨opening, closing, middle.reverse, ?_, by simpa using hquotes, by simpa using hrest⟩
        rw [← List.reverse_reverse rest, hreverse]
        simp
      next => cases hrest
    next => cases h
  · rintro ⟨opening, closing, more, rfl, hquoted, hplain⟩
    simpa [declaresVersionOne] using And.intro (by simpa using hquoted) hplain

/-- An XML declaration of version 1.0 conforms. -/
theorem prologConforms_toText (d : VersionOneDeclaration) : prologConforms d.toText = true := by
  obtain ⟨gap, before, behind, opening, closing, more, hne, hblank, hquoted, hplain⟩ := d
  obtain ⟨c, gap, rfl⟩ := List.exists_cons_of_ne_nil hne
  simp only [List.cons_append, List.mem_cons, List.mem_append] at hblank
  have hversion : declaresVersionOne
      (opening :: '1' :: '.' :: '0' :: closing :: (more ++ ['?', '>'])) = true :=
    declaresVersionOne_iff.mpr ⟨opening, closing, more, rfl, hquoted, hplain⟩
  have hopening : isWhiteSpace opening = false := by
    rcases hquoted opening (by simp) with rfl | rfl <;> decide
  have hgap : ∀ rest : Text, trimStart (gap ++ ("version".toList ++ rest)) =
      "version".toList ++ rest := fun rest =>
    dropWhile_append_cons (fun d hd => hblank d (by simp [hd])) (by decide)
  have hbefore : ∀ rest : Text, trimStart (before ++ '=' :: rest) = '=' :: rest := fun rest =>
    dropWhile_append_cons (fun d hd => hblank d (by simp [hd])) (by decide)
  have hbehind : ∀ rest : Text, trimStart (behind ++ opening :: rest) = opening :: rest :=
    fun rest => dropWhile_append_cons (fun d hd => hblank d (by simp [hd])) hopening
  have hafter : ∀ front rest : Text, Text.afterPrefix? front (front ++ rest) = some rest :=
    fun front rest => Text.afterPrefix?_eq_some_iff.mpr rfl
  have hc : isWhiteSpace c = true := hblank c (by simp)
  simp only [VersionOneDeclaration.toText, VersionOneDeclaration.assignment,
    VersionOneDeclaration.version, prologConforms, List.append_assoc, List.cons_append, hafter,
    hgap, hbefore, hbehind, hc, hversion, Bool.and_self]

/-- A conforming declaration is read from left to right: white space, `version`, white space, `=`,
white space and the version. -/
theorem exists_reads_of_prologConforms (h : prologConforms t = true) : ∃ c r named assigned,
    Text.afterPrefix? "<?xml".toList t = some (c :: r) ∧ isWhiteSpace c = true ∧
      Text.afterPrefix? "version".toList (trimStart r) = some named ∧
      trimStart named = '=' :: assigned ∧ declaresVersionOne (trimStart assigned) = true := by
  unfold prologConforms at h
  split at h
  next c r hafter =>
    rw [Bool.and_eq_true] at h
    obtain ⟨hc, h⟩ := h
    split at h
    next named hnamed =>
      split at h
      next assigned hassigned => exact ⟨c, r, named, assigned, hafter, hc, hnamed, hassigned, h⟩
      next => cases h
    next => cases h
  next => cases h

/-- An XML declaration conforms exactly when it is one of version 1.0. -/
theorem prologConforms_iff :
    prologConforms t = true ↔ ∃ d : VersionOneDeclaration, t = d.toText := by
  constructor
  · intro h
    obtain ⟨c, r, named, assigned, hafter, hc, hnamed, hassigned, hversion⟩ :=
      exists_reads_of_prologConforms h
    obtain ⟨opening, closing, more, hversion, hquoted, hplain⟩ :=
      declaresVersionOne_iff.mp hversion
    have ht := Text.afterPrefix?_eq_some_iff.mp hafter
    have hgap := takeWhile_append_trimStart r
    have hbefore := takeWhile_append_trimStart named
    have hbehind := takeWhile_append_trimStart assigned
    rw [Text.afterPrefix?_eq_some_iff.mp hnamed] at hgap
    rw [hassigned] at hbefore
    rw [hversion] at hbehind
    rw [← hgap, ← hbefore, ← hbehind] at ht
    have hblank : ∀ d ∈ c :: r.takeWhile isWhiteSpace ++ named.takeWhile isWhiteSpace ++
        assigned.takeWhile isWhiteSpace, isWhiteSpace d = true := by
      simp only [List.cons_append, List.mem_cons, List.mem_append]
      rintro d (rfl | (hd | hd) | hd)
      · exact hc
      all_goals exact List.mem_takeWhile_imp hd
    refine ⟨⟨_, _, _, opening, closing, more, List.cons_ne_nil _ _, hblank, hquoted, hplain⟩,
      ht.trans ?_⟩
    simp [VersionOneDeclaration.toText, VersionOneDeclaration.assignment,
      VersionOneDeclaration.version]
  · rintro ⟨d, rfl⟩
    exact prologConforms_toText d

end Conforming

section Cut

variable {t rest : Text}

/-- The byte order mark of a text, if it begins with one. -/
def Text.mark (t : Text) : Text := if hasByteOrderMark t then [byteOrderMark] else []

/-- A text is its byte order mark, if it has one, and what follows. -/
theorem Text.exists_mark_append (t : Text) :
    ∃ rest, t = t.mark ++ rest ∧ markSize t = size t.mark := by
  unfold mark markSize hasByteOrderMark
  split
  next hmark =>
    obtain ⟨rest, rfl⟩ := List.head?_eq_some_iff.mp (beq_iff_eq.mp hmark)
    exact ⟨rest, rfl, rfl⟩
  next => exact ⟨t, rfl, rfl⟩

/-- The byte order mark is no bracket. -/
theorem Text.bracket_not_mem_mark (t : Text) : '<' ∉ t.mark := by
  unfold mark
  split <;> decide

/-- What stands in front of the place where declarations begin. -/
theorem exists_markSize_eq (t : Text) : ∃ front rest, t = front ++ rest ∧
    markSize t = Text.size front ∧ '<' ∉ front :=
  have ⟨rest, ht, hsize⟩ := t.exists_mark_append
  ⟨t.mark, rest, ht, hsize, t.bracket_not_mem_mark⟩

/-- The byte order mark of a text is that of every text that goes on in the same way with an opening
bracket behind the mark. -/
theorem Text.mark_append_of_head? {w : Text} (hw : w.head? = some '<') :
    (t.mark ++ w).mark = t.mark := by
  obtain ⟨w, rfl⟩ := List.head?_eq_some_iff.mp hw
  have hbracket : ('<' == byteOrderMark) = false := by
    decide
  unfold mark
  split
  · rfl
  · simp [hasByteOrderMark, hbracket]

/-- Whether a text begins with another one, be it behind a byte order mark. -/
def Text.BeginsWith (t beginning : Text) : Prop :=
  beginning <+: t ∨ byteOrderMark :: beginning <+: t

/-- What has a bracket in front begins right behind the mark. -/
theorem Text.beginsWith_iff {w : Text} (hw : w.head? = some '<') :
    t.BeginsWith w ↔ ∃ rest, t = t.mark ++ (w ++ rest) := by
  have hhead : ∀ rest : Text, (w ++ rest).head? = some '<' := by
    simp [List.head?_append, hw]
  constructor
  · rintro (⟨rest, rfl⟩ | ⟨rest, rfl⟩)
    · refine ⟨rest, ?_⟩
      obtain ⟨w, rfl⟩ := List.head?_eq_some_iff.mp hw
      rfl
    · exact ⟨rest, rfl⟩
  · rintro ⟨rest, ht⟩
    rw [BeginsWith, ht, mark]
    split
    · exact .inr ⟨rest, rfl⟩
    · exact .inl ⟨rest, rfl⟩

/-- What goes through the first mark ends with it, or is everything when there is none. -/
theorem throughFirst_cases (stop : Char) (t : Text) :
    (∃ q rest, t = q ++ stop :: rest ∧ stop ∉ q ∧ throughFirst stop t = q ++ [stop]) ∨
      stop ∉ t ∧ throughFirst stop t = t := by
  induction t with
  | nil => exact .inr ⟨List.not_mem_nil, rfl⟩
  | cons c r ih =>
      unfold throughFirst
      split
      next hc => exact .inl ⟨[], r, by rw [hc]; rfl, List.not_mem_nil, by rw [hc]; rfl⟩
      next hc =>
        rcases ih with ⟨q, rest, hr, hq, hthrough⟩ | ⟨hr, hthrough⟩
        · refine .inl ⟨c :: q, rest, by rw [hr, List.cons_append], ?_, ?_⟩
          · simp [hq, Ne.symm hc]
          · rw [hthrough, List.cons_append]
        · exact .inr ⟨by simp [hr, Ne.symm hc], by rw [hthrough]⟩

theorem throughFirst_isPrefix (stop : Char) (t : Text) : throughFirst stop t <+: t := by
  rcases throughFirst_cases stop t with ⟨q, rest, ht, -, hthrough⟩ | ⟨-, hthrough⟩
  · exact ⟨rest, by rw [hthrough, ht]; simp⟩
  · exact ⟨[], by rw [hthrough, List.append_nil]⟩

/-- The XML declaration of a text, and what comes after it. -/
structure PrologSite (t : Text) (header : Header) (rest : Text) : Prop where
  /-- It stands behind the mark. -/
  text : t = t.mark ++ (header.text ++ rest)
  /-- It has that place. -/
  span : header.span = ⟨Text.size t.mark, Text.size t.mark + Text.size header.text⟩
  /-- It begins like a processing instruction. -/
  starts : ['<', '?'] <+: header.text
  /-- It goes no further than its line. -/
  line : '\n' ∉ header.text
  /-- No closing bracket comes before its last character. -/
  once : '>' ∉ header.text.dropLast
  /-- Without a closing bracket it goes to the end of the line. -/
  ends : '>' ∉ header.text → rest.head?.all (· == '\n') = true

/-- What is cut out as the XML declaration of a text whose mark is known. -/
theorem prologHeader?_append (front rest : Text)
    (hmark : markSize (front ++ rest) = Text.size front) : prologHeader? (front ++ rest) =
      if (Text.afterPrefix? "<?xml".toList rest).any
          (·.head?.any fun c => isWhiteSpace c || c == '?' || c == '>') then
        some ⟨throughFirst '>' (rest.takeWhile (· != '\n')), Text.size front,
          Text.size front + Text.size (throughFirst '>' (rest.takeWhile (· != '\n')))⟩
      else none := by
  rw [prologHeader?, hmark, Text.dropBytes_size_append]
  cases Text.afterPrefix? "<?xml".toList rest with
  | none => rfl
  | some after => cases after <;> rfl

/-- Every XML declaration has its place. -/
theorem exists_prologSite {header : Header} (h : prologHeader? t = some header) :
    ∃ rest, PrologSite t header rest := by
  obtain ⟨rest, ht, hmark⟩ := t.exists_mark_append
  have hcut := prologHeader?_append t.mark rest (by rw [← ht]; exact hmark)
  rw [← ht, h] at hcut
  split at hcut
  next hafter =>
    obtain rfl := Option.some.inj hcut
    have hsplit : rest.takeWhile (· != '\n') ++ rest.dropWhile (· != '\n') = rest :=
      List.takeWhile_append_dropWhile
    have hfeed : '\n' ∉ rest.takeWhile (· != '\n') := fun hmem => by
      simpa using List.mem_takeWhile_imp hmem
    have hlater : (rest.dropWhile (· != '\n')).head?.all (· == '\n') = true := by
      have hhead := List.head?_dropWhile_not (· != '\n') rest
      cases hdrop : rest.dropWhile (· != '\n') with
      | nil => rfl
      | cons c r => simpa [hdrop] using hhead
    have hstarts : ['<', '?'] <+: throughFirst '>' (rest.takeWhile (· != '\n')) := by
      obtain ⟨after, hafter, -⟩ := Option.any_eq_true _ _ |>.mp hafter
      rw [Text.afterPrefix?_eq_some_iff.mp hafter]
      exact ⟨_, rfl⟩
    generalize rest.takeWhile (· != '\n') = line at hsplit hfeed hstarts ⊢
    generalize rest.dropWhile (· != '\n') = later at hsplit hlater
    rcases throughFirst_cases '>' line with ⟨q, w, rfl, hq, hthrough⟩ | ⟨hnone, hthrough⟩
    · rw [hthrough] at hstarts ⊢
      simp only [List.mem_append, List.mem_cons, not_or] at hfeed
      exact ⟨w ++ later, by simpa [← hsplit] using ht, rfl, hstarts, by simp [hfeed],
        by simpa using hq, by simp⟩
    · rw [hthrough] at hstarts ⊢
      exact ⟨later, by rwa [hsplit], rfl, hstarts, hfeed,
        fun hmem => hnone (List.dropLast_subset _ hmem), fun _ => hlater⟩
  next => cases hcut

/-- The XML declaration of a text stands after the byte order mark, begins like one and has a
closing bracket at its end only. -/
theorem exists_of_prologHeader? {header : Header} (h : prologHeader? t = some header) :
    ∃ front q z b, t = front ++ (header.text ++ b) ∧ '<' ∉ front ∧
      header.text = '<' :: '?' :: (q ++ z) ∧ '>' ∉ q ∧ (∀ c ∈ z, c = '>') ∧
      header.span = ⟨Text.size front, Text.size front + Text.size header.text⟩ := by
  obtain ⟨b, hsite⟩ := exists_prologSite h
  obtain ⟨w, hw⟩ := hsite.starts
  have honce := hsite.once
  obtain ⟨q, z, rfl, hq, hz⟩ : ∃ q z, w = q ++ z ∧ '>' ∉ q ∧ ∀ c ∈ z, c = '>' := by
    obtain rfl | ⟨q, c, rfl⟩ := List.eq_nil_or_concat' w
    · exact ⟨[], [], rfl, by simp, by simp⟩
    · have hq : '>' ∉ q := by
        simpa [← hw, List.dropLast_cons_of_ne_nil] using honce
      by_cases hc : c = '>'
      · exact ⟨q, [c], rfl, hq, by simp [hc]⟩
      · exact ⟨q ++ [c], [], by simp, by simp [hq, Ne.symm hc], by simp⟩
  exact ⟨t.mark, q, z, b, hsite.text, t.bracket_not_mem_mark, hw.symm, hq, hz, hsite.span⟩

/-- What goes through the first mark of a text that has one. -/
theorem throughFirst_append {stop : Char} {q : Text} (hq : stop ∉ q) (r : Text) :
    throughFirst stop (q ++ stop :: r) = q ++ [stop] := by
  induction q with
  | nil => simp [throughFirst]
  | cons c q ih =>
      rw [List.mem_cons, not_or] at hq
      simp [throughFirst, Ne.symm hq.1, ih hq.2]

/-- A declaration of version 1.0 without line feeds is cut out as it is. -/
theorem prologHeader?_eq_some (d : VersionOneDeclaration) (hline : '\n' ∉ d.toText)
    (ht : t = t.mark ++ (d.toText ++ rest)) : prologHeader? t =
      some ⟨d.toText, Text.size t.mark, Text.size t.mark + Text.size d.toText⟩ := by
  obtain ⟨-, -, hmark⟩ := t.exists_mark_append
  have hcut := prologHeader?_append t.mark (d.toText ++ rest) (by rw [← ht]; exact hmark)
  have hfirst : (d.toText ++ rest).takeWhile (· != '\n') =
      d.toText ++ rest.takeWhile (· != '\n') :=
    List.takeWhile_append_of_pos fun c hc => by
      rw [bne_iff_ne]
      rintro rfl
      exact hline hc
  have hthrough : throughFirst '>' (d.toText ++ rest.takeWhile (· != '\n')) = d.toText := by
    rw [d.toText_eq, List.append_assoc]
    exact throughFirst_append d.bracket_not_mem_front _
  have hafter : Text.afterPrefix? "<?xml".toList (d.toText ++ rest) =
      some (d.assignment ++ d.version ++ rest) := by
    rw [Text.afterPrefix?_eq_some_iff, VersionOneDeclaration.toText, List.append_assoc]
  have hopens : (d.assignment ++ d.version ++ rest).head?.any
      (fun c => isWhiteSpace c || c == '?' || c == '>') = true := by
    obtain ⟨c, gap, hgap⟩ := List.exists_cons_of_ne_nil d.gap_ne_nil
    have hc : isWhiteSpace c = true := d.blank c (by simp [hgap])
    simp [VersionOneDeclaration.assignment, hgap, hc]
  rw [← ht, hfirst, hthrough, hafter] at hcut
  rw [hcut, Option.any_some, if_pos hopens]

/-- A document has a conforming XML declaration exactly when it begins with one of version 1.0 that
stands in one line. -/
theorem prologConforms_scan_iff : (scan t).prologConforms = true ↔
    ∃ d : VersionOneDeclaration, '\n' ∉ d.toText ∧ t.BeginsWith d.toText := by
  have hconforms : (scan t).prologConforms = true ↔
      ∃ header, prologHeader? t = some header ∧ prologConforms header.text = true :=
    Option.any_eq_true _ _
  rw [hconforms]
  constructor
  · rintro ⟨header, hheader, hd⟩
    obtain ⟨d, hd⟩ := prologConforms_iff.mp hd
    obtain ⟨rest, hsite⟩ := exists_prologSite hheader
    refine ⟨d, hd ▸ hsite.line, (Text.beginsWith_iff rfl).mpr ⟨rest, ?_⟩⟩
    rw [← hd]
    exact hsite.text
  · rintro ⟨d, hline, hbegins⟩
    obtain ⟨rest, ht⟩ := (Text.beginsWith_iff rfl).mp hbegins
    exact ⟨_, prologHeader?_eq_some d hline ht, prologConforms_iff.mpr ⟨d, rfl⟩⟩

end Cut

end MarkupRepair
