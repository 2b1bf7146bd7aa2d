import MarkupRepair.Proofs.Markup.Reading

/-!
# Scanning pieces one after another

The tags and the references of a sequence of pieces are those of its pieces. No piece opens a
comment or looks like a document type, so the pieces are scanned as they are written.
-/

namespace MarkupRepair

/-- Whether every opening angle bracket of a text is followed by another character than an
exclamation mark. -/
def FreeOfDeclarations : Text → Prop
  | [] => True
  | c :: r => (c = '<' → ∃ d s, r = d :: s ∧ d ≠ '!') ∧ FreeOfDeclarations r

theorem FreeOfDeclarations.append {a b : Text} (ha : FreeOfDeclarations a)
    (hb : FreeOfDeclarations b) : FreeOfDeclarations (a ++ b) := by
  induction a with
  | nil => exact hb
  | cons c r ih =>
      refine ⟨?_, ih ha.2⟩
      intro hc
      obtain ⟨d, s, rfl, hd⟩ := ha.1 hc
      exact ⟨d, s ++ b, rfl, hd⟩

theorem freeOfDeclarations_of_not_mem {w : Text} (h : '<' ∉ w) : FreeOfDeclarations w := by
  induction w with
  | nil => trivial
  | cons c r ih =>
      rw [List.mem_cons, not_or] at h
      exact ⟨fun hc => absurd hc.symm h.1, ih h.2⟩

theorem Terminated.append {a b : Text} (ha : Terminated a) (hb : Terminated b) :
    Terminated (a ++ b) := by
  induction a with
  | nil => exact hb
  | cons c r ih =>
      refine ⟨?_, ih ha.2⟩
      intro hc
      obtain ⟨name, tail, hname, rfl⟩ := ha.1 hc
      exact ⟨name, tail ++ b, hname, by simp⟩

theorem terminated_of_not_mem {w : Text} (h : '&' ∉ w) : Terminated w := by
  induction w with
  | nil => trivial
  | cons c r ih =>
      rw [List.mem_cons, not_or] at h
      exact ⟨fun hc => absurd hc.symm h.1, ih h.2⟩

/-- A reference with a semicolon is terminated. -/
theorem IsEntityName.terminated {name : Text} (h : IsEntityName name) :
    Terminated ('&' :: (name ++ [';'])) := by
  have hplain : '&' ∉ name ++ [';'] := not_mem_append_of_class h.2 (by decide) (by decide)
  exact ⟨fun _ => ⟨name, [], h, rfl⟩, terminated_of_not_mem hplain⟩

namespace TagText

/-- A text without opening angle brackets has no tags. -/
theorem all_append_of_not_mem {w : Text} (h : '<' ∉ w) (offset : Nat) (rest : Text) :
    all offset (w ++ rest) = all (offset + Text.size w) rest := by
  induction w generalizing offset with
  | nil => rfl
  | cons c r ih =>
      rw [List.mem_cons, not_or] at h
      have hnone : atStart? (c :: (r ++ rest)) = none := by
        unfold atStart?
        split
        next hcons => exact absurd (List.cons.inj hcons).1.symm h.1
        next => rfl
      rw [List.cons_append, all, hnone, ih h.2, Text.size_cons, Nat.add_assoc]

/-- A text that starts with a tag and has no other opening angle bracket has that tag. -/
theorem all_append_of_atStart? {w rest : Text} {tag : TagText} (h : '<' ∉ w)
    (htag : atStart? ('<' :: w ++ rest) = some tag) (offset : Nat) :
    all offset ('<' :: w ++ rest) =
      (offset, tag) :: all (offset + Text.size ('<' :: w)) rest := by
  rw [List.cons_append] at htag ⊢
  rw [all, htag, all_append_of_not_mem h, Text.size_cons, Nat.add_assoc]

end TagText

namespace EntityText

/-- The references of a text that are not terminated. -/
def openFrom (offset : Nat) (t : Text) : List (Nat × EntityText) :=
  (all offset t).filter fun e => !e.2.terminated

theorem openFrom_cons_of_ne {c : Char} (h : c ≠ '&') (offset : Nat) (r : Text) :
    openFrom offset (c :: r) = openFrom (offset + c.utf8Size) r := by
  rw [openFrom, all, if_neg h]
  rfl

/-- A text whose references are terminated has none that are not. -/
theorem openFrom_append_of_terminated {w : Text} (h : Terminated w) (offset : Nat) (rest : Text) :
    openFrom offset (w ++ rest) = openFrom (offset + Text.size w) rest := by
  induction w generalizing offset with
  | nil => rfl
  | cons c r ih =>
      rw [Text.size_cons, ← Nat.add_assoc, ← ih h.2]
      by_cases hc : c = '&'
      · subst hc
        obtain ⟨name, tail, hname, rfl⟩ := h.1 rfl
        have hread : read (name ++ ';' :: tail ++ rest) = ⟨name, true⟩ := by
          rw [List.append_assoc, List.cons_append]
          exact read_append hname.2 (by decide) _
        have hdone : (⟨name, true⟩ : EntityText).terminated = true := by
          simp [terminated, hname.1]
        rw [List.cons_append, openFrom, all, if_pos rfl, hread, List.filter_cons]
        simp [hdone, openFrom]
      · rw [List.cons_append, openFrom_cons_of_ne hc]

/-- A reference in front of a blank is not terminated. -/
theorem openFrom_append_blank {name : Text} (hname : ∀ c ∈ name, isEntityNameChar c = true)
    (offset : Nat) (rest : Text) :
    openFrom offset ('&' :: (name ++ [' ']) ++ rest) =
      (offset, ⟨name, false⟩) :: openFrom (offset + Text.size ('&' :: (name ++ [' ']))) rest := by
  have hread : read (name ++ [' '] ++ rest) = ⟨name, false⟩ := by
    rw [List.append_assoc, List.singleton_append]
    exact read_append hname (by decide) _
  have hplain : '&' ∉ name ++ [' '] := not_mem_append_of_class hname (by decide) (by decide)
  rw [List.cons_append, openFrom, all, if_pos rfl, hread, List.filter_cons]
  have hopen : (!(⟨name, false⟩ : EntityText).terminated) = true := rfl
  rw [if_pos hopen, Text.size_cons, ← Nat.add_assoc,
    ← openFrom_append_of_terminated (terminated_of_not_mem hplain)]
  rfl

end EntityText

section Hidden

/-- A section is opened by an angle bracket and an exclamation mark. -/
theorem HiddenKind.at?_eq_none {c d : Char} {r : Text} (h : c ≠ '<' ∨ d ≠ '!') :
    HiddenKind.at? (c :: d :: r) = none := by
  rcases h with h | h
  · simp [HiddenKind.at?, HiddenKind.opener, Text.startsWith, Text.afterPrefix?, Ne.symm h]
  · simp [HiddenKind.at?, HiddenKind.opener, Text.startsWith, Text.afterPrefix?, Ne.symm h]

theorem HiddenKind.at?_eq_none_of_ne {c : Char} {r : Text} (h : c ≠ '<') :
    HiddenKind.at? (c :: r) = none := by
  simp [HiddenKind.at?, HiddenKind.opener, Text.startsWith, Text.afterPrefix?, Ne.symm h]

/-- A text without declarations hides nothing. -/
theorem marksFrom_append {w : Text} (h : FreeOfDeclarations w) (rest : Text) :
    marksFrom none 0 (w ++ rest) = List.replicate w.length .plain ++ marksFrom none 0 rest := by
  induction w with
  | nil => rfl
  | cons c r ih =>
      have hnone : HiddenKind.at? (c :: (r ++ rest)) = none := by
        by_cases hc : c = '<'
        · obtain ⟨d, s, rfl, hd⟩ := h.1 hc
          exact HiddenKind.at?_eq_none (Or.inr hd)
        · exact HiddenKind.at?_eq_none_of_ne hc
      rw [List.cons_append, marksFrom, hnone, List.length_cons, List.replicate_succ,
        List.cons_append, ← ih h.2]

/-- Nothing is masked where nothing is hidden. -/
theorem mask_eq_self {t : Text} (h : marksFrom none 0 t = List.replicate t.length .plain) :
    mask t = t := by
  have hzip : ∀ t : Text, ((t.zip (List.replicate t.length Mark.plain)).map
      fun p => maskChar p.1 p.2).flatten = t := by
    intro t
    induction t with
    | nil => rfl
    | cons c r ih =>
        rw [List.length_cons, List.replicate_succ, List.zip_cons_cons, List.map_cons,
          List.flatten_cons, ih]
        rfl
  rw [mask, marks, h, hzip]

end Hidden

section Headers

/-- No other character than a letter turns into one that is no letter. -/
theorem eq_of_toLower_eq {c d : Char} (h : c.toLower = d) (hd : d.isAlpha = false) : c = d := by
  unfold Char.toLower at h
  split at h
  next hc =>
    have hval : d.val.toNat = c.val.toNat + 32 := by
      rw [← h]
      have hdiff : ('a'.val - 'A'.val).toNat = 32 := rfl
      have hmax := UInt32.le_iff_toNat_le.mp hc.2
      have hZ : 'Z'.val.toNat = 90 := rfl
      change (c.val + ('a'.val - 'A'.val)).toNat = _
      rw [UInt32.toNat_add, hdiff]
      omega
    simp only [Char.isAlpha, Char.isLower, Bool.or_eq_false_iff, Bool.and_eq_false_iff,
      decide_eq_false_iff_not, ge_iff_le, UInt32.le_iff_toNat_le] at hd hc
    have hA : 'A'.val.toNat = 65 := rfl
    have hZ : 'Z'.val.toNat = 90 := rfl
    have ha : 'a'.val.toNat = 97 := rfl
    have hz : 'z'.val.toNat = 122 := rfl
    omega
  next => exact h

/-- A document type starts with an angle bracket and an exclamation mark. -/
theorem doctypeAt?_eq_none {t : Text} (h : ∀ s, t ≠ '<' :: '!' :: s) : doctypeAt? t = none := by
  have hopening : "<!doctype".toList = '<' :: '!' :: "doctype".toList := by
    decide
  have hne : (Text.toLowerAscii (t.take "<!doctype".toList.length) == "<!doctype".toList) =
      false := by
    rw [beq_eq_false_iff_ne]
    intro heq
    rw [hopening] at heq
    cases t with
    | nil => cases heq
    | cons c r =>
        cases r with
        | nil =>
            have hlength := congrArg List.length heq
            simp [Text.toLowerAscii] at hlength
        | cons d s =>
            obtain ⟨hc, htail⟩ := List.cons.inj heq
            obtain ⟨hd, _⟩ := List.cons.inj htail
            obtain rfl := eq_of_toLower_eq hc (by decide)
            obtain rfl := eq_of_toLower_eq hd (by decide)
            exact h s rfl
  unfold doctypeAt?
  dsimp only
  rw [hne, Bool.false_and]
  rfl

/-- A text without declarations has no document type. -/
theorem doctypeHeader?_append {w : Text} (h : FreeOfDeclarations w) (offset : Nat) (rest : Text) :
    doctypeHeader? offset (w ++ rest) = doctypeHeader? (offset + Text.size w) rest := by
  induction w generalizing offset with
  | nil => rfl
  | cons c r ih =>
      have hnone : doctypeAt? (c :: (r ++ rest)) = none := by
        apply doctypeAt?_eq_none
        intro s hs
        obtain ⟨rfl, htail⟩ := List.cons.inj hs
        obtain ⟨d, u, rfl, hd⟩ := h.1 rfl
        exact hd (List.cons.inj htail).1
      rw [List.cons_append, doctypeHeader?, hnone, ih h.2, Text.size_cons, Nat.add_assoc]

theorem doctypeAt?_canonicalDoctype (rest : Text) :
    doctypeAt? (canonicalDoctype ++ rest) = some canonicalDoctype := by
  have hchars : canonicalDoctype = "<!DOCTYPE".toList ++ (" html".toList ++ ['>']) := by
    decide
  have hlength : "<!doctype".toList.length = "<!DOCTYPE".toList.length := by
    decide
  have htake : (canonicalDoctype ++ rest).take "<!doctype".toList.length =
      "<!DOCTYPE".toList := by
    rw [hchars, hlength, List.append_assoc, List.take_left]
  have hdrop : (canonicalDoctype ++ rest).drop "<!doctype".toList.length =
      " html".toList ++ '>' :: rest := by
    rw [hchars, hlength, List.append_assoc, List.drop_left, List.append_assoc,
      List.singleton_append]
  have hbody : (" html".toList ++ '>' :: rest).takeWhile (fun c => c != '<' && c != '>') =
      " html".toList :=
    takeWhile_append_cons (List.all_eq_true.mp (by decide)) (by decide)
  have hlower : (Text.toLowerAscii "<!DOCTYPE".toList == "<!doctype".toList) = true := by
    decide
  have hblank : isWordChar ' ' = false := by
    decide
  have hafter : (" html".toList ++ '>' :: rest).head?.any isWordChar = false := by
    have hcons : " html".toList = ' ' :: "html".toList := by
      decide
    rw [hcons, List.cons_append, List.head?_cons, Option.any_some, hblank]
  have hclose : ((" html".toList ++ '>' :: rest).drop " html".toList.length).head? ==
      some '>' := by
    rw [List.drop_left]
    rfl
  unfold doctypeAt?
  dsimp only
  rw [htake, hdrop, hbody, hlower, hafter, Bool.not_false, Bool.and_true, if_pos rfl,
    if_pos hclose, hchars, List.append_assoc]

end Headers

namespace WrittenAttribute

/-- The references in an attribute are terminated. -/
theorem Valid.terminated {a : WrittenAttribute} (ha : a.Valid) : Terminated a.written := by
  have hassignment : '&' ∉ a.assignment :=
    ha.not_mem_assignment (by decide) (by decide) (by decide)
  have hraw : Terminated a.raw := by
    unfold raw
    split
    next =>
      have hclose : Terminated ['"'] := terminated_of_not_mem (by decide)
      exact ⟨by simp, ha.wellFormed.terminated.append hclose⟩
    next hquoted =>
      refine terminated_of_not_mem ?_
      intro hmem
      exact ((ha.readsUnquoted (Bool.eq_false_iff.mpr hquoted)).valueChars _ hmem).2 (by decide)
  rw [written_eq_append]
  exact (terminated_of_not_mem hassignment).append hraw

end WrittenAttribute

namespace Piece

/-- The tag that a piece is. -/
def tag? : Piece → Option TagText
  | tag form name attributes => some ⟨false, name, body attributes, form != .opening⟩
  | closing name => some ⟨true, name, [], false⟩
  | _ => none

/-- The reference without a semicolon that a piece is. -/
def openReference? : Piece → Option EntityText
  | unterminated name => some ⟨name, false⟩
  | ampersand => some ⟨[], false⟩
  | _ => none

theorem written_tag (form : TagForm) (name : Text) (attributes : List WrittenAttribute) :
    (tag form name attributes).written =
      '<' :: (name ++ body attributes ++ if form != .opening then ['/', '>'] else ['>']) := by
  cases form <;> rfl

/-- Only tags have an angle bracket that opens. -/
theorem Valid.noBracket {p : Piece} (hp : p.Valid) (htag : p.tag? = none) : '<' ∉ p.written := by
  have hreference : ∀ name d, IsEntityName name → '<' ≠ d → '<' ∉ '&' :: (name ++ [d]) := by
    intro name d hname hd
    rw [List.mem_cons, not_or]
    exact ⟨by decide, not_mem_append_of_class hname.2 (by decide) hd⟩
  cases p with
  | char c => simpa [written] using Ne.symm hp.1
  | reference name => exact hreference name ';' hp (by decide)
  | unterminated name => exact hreference name ' ' hp (by decide)
  | ampersand => decide
  | tag form name attributes => cases htag
  | closing name => cases htag

/-- A tag is read as it is written, and no other tag begins in it. -/
theorem Valid.exists_written {p : Piece} (hp : p.Valid) {t : TagText} (htag : p.tag? = some t) :
    ∃ d w, p.written = '<' :: d :: w ∧ d ≠ '!' ∧ '<' ∉ d :: w ∧
      ∀ rest, TagText.atStart? (p.written ++ rest) = some t := by
  have hnameOk : ∀ name, IsElementName name → '<' ∉ name := by
    intro name hname
    exact not_mem_of_class hname.nameChars (by decide)
  cases p with
  | tag form name attributes =>
      obtain rfl := Option.some.inj htag
      obtain ⟨hname, hattributes, -⟩ := hp
      obtain ⟨c, r, hcons, hc⟩ := hname.exists_cons
      refine ⟨c, r ++ body attributes ++ if form != .opening then ['/', '>'] else ['>'], ?_, ?_, ?_,
        ?_⟩
      · rw [written_tag, hcons]
        rfl
      · rintro rfl
        revert hc
        decide
      · have hname' := hnameOk name hname
        have hbody := TagText.not_mem_body hattributes
        rw [← List.cons_append, ← List.cons_append, ← hcons]
        cases form <;> simp [hname', hbody]
      · intro rest
        rw [written_tag]
        exact TagText.atStart?_opening hname hattributes (form != .opening) rest
  | closing name =>
      obtain rfl := Option.some.inj htag
      refine ⟨'/', name ++ ['>'], rfl, by decide, ?_, TagText.atStart?_closing hp.1⟩
      simp [hnameOk name hp.1]
  | _ => cases htag

/-- The tags of a piece, whatever comes after it. -/
theorem Valid.all_written_append {p : Piece} (hp : p.Valid) (offset : Nat) (rest : Text) :
    TagText.all offset (p.written ++ rest) =
      (p.tag?.map fun t => (offset, t)).toList ++
        TagText.all (offset + Text.size p.written) rest := by
  cases htag : p.tag? with
  | none => exact TagText.all_append_of_not_mem (hp.noBracket htag) offset rest
  | some t =>
      obtain ⟨d, w, hwritten, _, hmem, hread⟩ := hp.exists_written htag
      have hstart := hread rest
      rw [hwritten] at hstart ⊢
      exact TagText.all_append_of_atStart? hmem hstart offset

/-- No piece looks like a declaration. -/
theorem Valid.freeOfDeclarations {p : Piece} (hp : p.Valid) : FreeOfDeclarations p.written := by
  cases htag : p.tag? with
  | none => exact freeOfDeclarations_of_not_mem (hp.noBracket htag)
  | some t =>
      obtain ⟨d, w, hwritten, hd, hmem, _⟩ := hp.exists_written htag
      rw [hwritten]
      exact ⟨fun _ => ⟨d, w, rfl, hd⟩, freeOfDeclarations_of_not_mem hmem⟩

/-- The references of a piece, whatever comes after it. -/
theorem Valid.openFrom_written_append {p : Piece} (hp : p.Valid) (offset : Nat) (rest : Text) :
    EntityText.openFrom offset (p.written ++ rest) =
      (p.openReference?.map fun e => (offset, e)).toList ++
        EntityText.openFrom (offset + Text.size p.written) rest := by
  have hnameOk : ∀ name, IsElementName name → Terminated name := by
    intro name hname
    exact terminated_of_not_mem (not_mem_of_class hname.nameChars (by decide))
  cases p with
  | char c =>
      refine EntityText.openFrom_append_of_terminated (terminated_of_not_mem ?_) offset rest
      simpa [written] using Ne.symm hp.2
  | reference name => exact EntityText.openFrom_append_of_terminated hp.terminated offset rest
  | unterminated name => exact EntityText.openFrom_append_blank hp.2 offset rest
  | ampersand =>
      have hname : ∀ c ∈ ([] : Text), isEntityNameChar c = true := by
        simp
      exact EntityText.openFrom_append_blank hname offset rest
  | tag form name attributes =>
      obtain ⟨hname, hattributes, -⟩ := hp
      refine EntityText.openFrom_append_of_terminated ?_ offset rest
      have hbody : Terminated (body attributes) := by
        unfold body
        induction attributes with
        | nil => trivial
        | cons a more ih =>
            rw [List.forall_mem_cons] at hattributes
            exact hattributes.1.terminated.append (ih hattributes.2)
      have hclose : Terminated (if form != .opening then ['/', '>'] else ['>']) := by
        cases form <;> exact terminated_of_not_mem (by decide)
      rw [written_tag]
      exact ⟨by simp, ((hnameOk name hname).append hbody).append hclose⟩
  | closing name =>
      refine EntityText.openFrom_append_of_terminated ?_ offset rest
      have hclose : Terminated ['>'] := terminated_of_not_mem (by decide)
      exact ⟨by simp, by simp, (hnameOk name hp.1).append hclose⟩

end Piece

end MarkupRepair
