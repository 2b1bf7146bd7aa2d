import Mathlib
import MarkupRepair.Markup.Scan
import MarkupRepair.Proofs.Defect.Piece

/-!
# Reading pieces

How the tags, the attributes and the references of a piece are read, whatever comes after the
piece. A value between double quotes may hold anything but a double quote and an opening angle
bracket; what looks like the end of the tag or like another attribute inside it is not read.
-/

namespace MarkupRepair

section Characters

/-- Letters and digits of the core library are word characters. -/
theorem isWordChar_of_isAlphanum {c : Char} (h : c.isAlphanum = true) : isWordChar c = true := by
  have hc : c.toNat < 0x80 := by
    simp only [Char.isAlphanum, Char.isAlpha, Char.isUpper, Char.isLower, Char.isDigit,
      Bool.or_eq_true, Bool.and_eq_true, decide_eq_true_eq, ge_iff_le, UInt32.le_iff_toNat_le]
      at h
    have hv : c.toNat = c.val.toNat := rfl
    rcases h with (⟨_, h⟩ | ⟨_, h⟩) | ⟨_, h⟩ <;> simp at h <;> omega
  simp [isWordChar, hc, h]

/-- Small letters and digits stay as they are. -/
theorem toLower_of_isLower_or_isDigit {c : Char} (h : c.isLower = true ∨ c.isDigit = true) :
    c.toLower = c := by
  have hupper : ¬ (c.val ≥ 'A'.val ∧ c.val ≤ 'Z'.val) := by
    simp only [Char.isLower, Char.isDigit, Bool.and_eq_true, decide_eq_true_eq, ge_iff_le,
      UInt32.le_iff_toNat_le] at h ⊢
    have hA : 'A'.val.toNat = 65 := rfl
    have hZ : 'Z'.val.toNat = 90 := rfl
    have ha : 'a'.val.toNat = 97 := rfl
    have h9 : '9'.val.toNat = 57 := rfl
    omega
  rw [Char.toLower, dif_neg hupper]

/-- Only capital letters change when written small, and they become small letters. -/
theorem toLower_eq_or (c : Char) :
    c.toLower = c ∨ c.utf8Size = 1 ∧ c.toLower.utf8Size = 1 ∧ c.toLower.isLower = true := by
  by_cases h : c.val ≥ 'A'.val ∧ c.val ≤ 'Z'.val
  · have hA : 'A'.val.toNat = 65 := rfl
    have hZ : 'Z'.val.toNat = 90 := rfl
    have hshift : ('a'.val - 'A'.val).toNat = 32 := rfl
    have hval : c.toLower.val.toNat = c.val.toNat + 32 := by
      simp only [ge_iff_le, UInt32.le_iff_toNat_le] at h
      rw [Char.toLower, dif_pos (by simpa only [ge_iff_le, UInt32.le_iff_toNat_le] using h),
        UInt32.toNat_add, hshift, Nat.mod_eq_of_lt (by omega)]
    simp only [ge_iff_le, UInt32.le_iff_toNat_le] at h
    refine Or.inr ⟨?_, ?_, ?_⟩
    · rw [Char.utf8Size_eq_one_iff, UInt32.le_iff_toNat_le]
      have : (127 : UInt32).toNat = 127 := rfl
      omega
    · rw [Char.utf8Size_eq_one_iff, UInt32.le_iff_toNat_le]
      have : (127 : UInt32).toNat = 127 := rfl
      omega
    · have ha : 'a'.val.toNat = 97 := rfl
      have hz : 'z'.val.toNat = 122 := rfl
      simp only [Char.isLower, Bool.and_eq_true, decide_eq_true_eq, ge_iff_le,
        UInt32.le_iff_toNat_le]
      omega
  · exact Or.inl (by rw [Char.toLower, dif_neg h])

theorem Text.toLowerAscii_toLowerAscii (t : Text) :
    t.toLowerAscii.toLowerAscii = t.toLowerAscii := by
  unfold Text.toLowerAscii
  rw [List.map_map]
  refine List.map_congr_left fun c _ => ?_
  rcases toLower_eq_or c with h | ⟨-, -, h⟩
  · rw [Function.comp_apply, h, h]
  · exact toLower_of_isLower_or_isDigit (Or.inl h)

theorem Text.size_toLowerAscii (t : Text) : t.toLowerAscii.size = t.size := by
  induction t with
  | nil => rfl
  | cons c r ih =>
      have hsize : c.toLower.utf8Size = c.utf8Size := by
        rcases toLower_eq_or c with h | ⟨h, h', -⟩
        · rw [h]
        · rw [h, h']
      rw [size_cons, ← ih, ← hsize]
      rfl

namespace IsElementName

variable {name : Text}

theorem nameChars (h : IsElementName name) : ∀ c ∈ name, isNameChar c = true := by
  intro c hc
  have hnum : c.isAlphanum = true := by
    rcases h.2 c hc with hlower | hdigit
    · simp [Char.isAlphanum, Char.isAlpha, hlower]
    · simp [Char.isAlphanum, hdigit]
  simp [isNameChar, isWordChar_of_isAlphanum hnum]

theorem toLowerAscii_eq (h : IsElementName name) : Text.toLowerAscii name = name := by
  have hmap : name.map Char.toLower = name.map id :=
    List.map_congr_left fun c hc => toLower_of_isLower_or_isDigit (h.2 c hc)
  rw [Text.toLowerAscii, hmap, List.map_id]

/-- An element name begins with a letter, so not with a slash. -/
theorem exists_cons (h : IsElementName name) :
    ∃ c r, name = c :: r ∧ c.isAlpha = true := by
  cases name with
  | nil => cases h.1
  | cons c r =>
      have hlower : c.isLower = true := by
        simpa using h.1
      exact ⟨c, r, rfl, by simp [Char.isAlpha, hlower]⟩

theorem letter (h : IsElementName name) : name.head?.any Char.isAlpha = true := by
  obtain ⟨c, r, rfl, halpha⟩ := h.exists_cons
  exact halpha

end IsElementName

namespace Attribute

variable {a : Attribute}

theorem isNameChar_of_isNameChar {c : Char} (h : Attribute.isNameChar c = true) :
    MarkupRepair.isNameChar c = true := by
  simp only [Attribute.isNameChar, Bool.or_eq_true, beq_iff_eq] at h
  rcases h with (((h | rfl) | rfl) | rfl) | rfl
  · simp [MarkupRepair.isNameChar, isWordChar_of_isAlphanum h]
  all_goals decide

end Attribute

end Characters

namespace WrittenAttribute

variable {a : WrittenAttribute}

/-- What stands after the equals sign. -/
def raw (a : WrittenAttribute) : Text :=
  if a.quoted then '"' :: (a.value ++ ['"']) else a.value

/-- The attribute as it is read. -/
def attributeText (a : WrittenAttribute) : AttributeText :=
  ⟨a.name, [], ⟨[], a.raw, a.value, if a.quoted then .double else .unquoted⟩⟩

theorem written_eq (a : WrittenAttribute) :
    a.written = ' ' :: (a.name ++ '=' :: a.raw) := rfl

theorem written_eq_toText (a : WrittenAttribute) : a.written = ' ' :: a.attributeText.toText := by
  simp [written_eq, attributeText, AttributeText.toText, AttributeText.beforeValue]

/-- The written attribute up to and including the equals sign. -/
def assignment (a : WrittenAttribute) : Text := ' ' :: (a.name ++ ['='])

theorem written_eq_append (a : WrittenAttribute) : a.written = a.assignment ++ a.raw := by
  simp [written_eq, assignment]

theorem Valid.not_mem_assignment (ha : a.Valid) {d : Char}
    (hd : Attribute.isNameChar d = false) (hblank : d ≠ ' ') (hequals : d ≠ '=') :
    d ∉ a.assignment := by
  rw [assignment, List.mem_cons, not_or]
  exact ⟨hblank, not_mem_append_of_class ha.wellFormed.nameChars hd hequals⟩

/-- The written attribute has no angle bracket that opens. -/
theorem Valid.noBracket (ha : a.Valid) : '<' ∉ a.written := by
  have hassignment : '<' ∉ a.assignment :=
    ha.not_mem_assignment (by decide) (by decide) (by decide)
  have hvalue := ha.wellFormed.noBracket
  rw [written_eq_append, raw]
  split <;> simp [hassignment, hvalue]

end WrittenAttribute

namespace TagText

theorem untilEnd_append_of_plain {w more : Text} (h : ∀ c ∈ w, c ≠ '>' ∧ c ≠ '"' ∧ c ≠ '\'') :
    untilEnd none (w ++ more) = w ++ untilEnd none more := by
  induction w with
  | nil => rfl
  | cons c r ih =>
      rw [List.forall_mem_cons] at h
      obtain ⟨⟨hend, hdouble, hsingle⟩, hr⟩ := h
      have hquote : opensQuoted c (r ++ more) = false := by
        simp [opensQuoted, hdouble, hsingle]
      rw [List.cons_append, untilEnd, if_neg hend, hquote, ih hr]
      rfl

theorem untilEnd_quoted_append {q : Char} {w more : Text} (h : q ∉ w) :
    untilEnd (some q) (w ++ q :: more) = w ++ q :: untilEnd none more := by
  induction w with
  | nil => rw [List.nil_append, untilEnd, if_pos rfl, List.nil_append]
  | cons c r ih =>
      rw [List.mem_cons, not_or] at h
      rw [List.cons_append, untilEnd, if_neg (Ne.symm h.1), ih h.2, List.cons_append]

/-- No attribute ends a tag, not even with a `>` in its value. -/
theorem untilEnd_written {a : WrittenAttribute} (ha : a.Valid) {more : Text} (hmore : '>' ∈ more) :
    untilEnd none (a.written ++ more) = a.written ++ untilEnd none more := by
  have hassignment : ∀ c ∈ a.assignment, c ≠ '>' ∧ c ≠ '"' ∧ c ≠ '\'' := by
    intro c hc
    refine ⟨?_, ?_, ?_⟩ <;> rintro rfl <;>
      exact ha.not_mem_assignment (by decide) (by decide) (by decide) hc
  rw [WrittenAttribute.written_eq_append, List.append_assoc, List.append_assoc,
    untilEnd_append_of_plain hassignment]
  congr 1
  unfold WrittenAttribute.raw
  split
  next =>
    have hopens : opensQuoted '"' (a.value ++ '"' :: more) = true := by
      have hdrop : (a.value ++ '"' :: more).dropWhile (· != '"') = '"' :: more :=
        dropWhile_append_cons (bne_of_not_mem ha.wellFormed.noQuote) (bne_self_eq_false '"')
      simp [opensQuoted, hdrop, hmore]
    simp only [List.cons_append, List.append_assoc, List.nil_append]
    rw [untilEnd, if_neg (by decide), hopens, if_pos rfl,
      untilEnd_quoted_append ha.wellFormed.noQuote]
  next hquoted =>
    have hvalue := (ha.readsUnquoted (Bool.eq_false_iff.mpr hquoted)).valueChars
    refine untilEnd_append_of_plain ?_
    intro c hc
    have hchar := (hvalue c hc).2
    refine ⟨?_, ?_, ?_⟩ <;> rintro rfl <;> exact hchar (by decide)

/-- The attributes of a tag are read as a whole. -/
theorem untilEnd_body {list : List WrittenAttribute} (hlist : ∀ a ∈ list, a.Valid) {more : Text}
    (hmore : '>' ∈ more) :
    untilEnd none (Piece.body list ++ more) = Piece.body list ++ untilEnd none more := by
  induction list with
  | nil => rfl
  | cons a rest ih =>
      rw [List.forall_mem_cons] at hlist
      have hmem : '>' ∈ Piece.body rest ++ more := List.mem_append_right _ hmore
      have hsplit : Piece.body (a :: rest) = a.written ++ Piece.body rest := rfl
      rw [hsplit, List.append_assoc, List.append_assoc, untilEnd_written hlist.1 hmem, ih hlist.2]

/-- The last character of the attributes is no slash that would belong to the tag, and no white
space. -/
theorem getLast?_body {list : List WrittenAttribute} (hlist : ∀ a ∈ list, a.Valid) {c : Char}
    (hc : (Piece.body list).getLast? = some c) : c ≠ '/' ∧ isWhiteSpace c = false := by
  induction list with
  | nil => cases hc
  | cons a rest ih =>
      rw [List.forall_mem_cons] at hlist
      have hsplit : Piece.body (a :: rest) = a.written ++ Piece.body rest := rfl
      rw [hsplit, List.getLast?_append] at hc
      cases hrest : (Piece.body rest).getLast? with
      | some d =>
          rw [hrest, Option.some_or] at hc
          exact ih hlist.2 (hrest.trans hc)
      | none =>
          rw [hrest, Option.none_or] at hc
          have hraw : ∃ w d, a.raw = w ++ [d] ∧ d ≠ '/' ∧ isWhiteSpace d = false := by
            unfold WrittenAttribute.raw
            split
            next => exact ⟨'"' :: a.value, '"', rfl, by decide, by decide⟩
            next hquoted =>
              have hreads := hlist.1.readsUnquoted (Bool.eq_false_iff.mpr hquoted)
              have hchar := hreads.valueChars _ (List.getLast_mem hreads.value_ne_nil)
              refine ⟨a.value.dropLast, a.value.getLast hreads.value_ne_nil,
                (List.dropLast_concat_getLast hreads.value_ne_nil).symm, ?_, hchar.1⟩
              intro hslash
              exact hchar.2 (by rw [hslash]; decide)
          obtain ⟨w, d, hraw, hd⟩ := hraw
          have hlast : a.written.getLast? = some d := by
            simp [WrittenAttribute.written_eq, hraw, List.getLast?_append, List.getLast?_cons]
          obtain rfl := Option.some.inj (hlast.symm.trans hc)
          exact hd

theorem not_mem_body {list : List WrittenAttribute} (hlist : ∀ a ∈ list, a.Valid) :
    '<' ∉ Piece.body list := by
  rw [Piece.body, List.mem_flatMap]
  rintro ⟨a, ha, hmem⟩
  exact (hlist a ha).noBracket hmem

/-- What follows the name of a tag is no part of the name. -/
theorem head?_body_append (list : List WrittenAttribute) {after : Text}
    (hafter : after.head?.all (!isNameChar ·) = true) :
    (Piece.body list ++ after).head?.all (!isNameChar ·) = true := by
  cases list with
  | nil => exact hafter
  | cons a more =>
      rw [Piece.body, List.flatMap_cons, WrittenAttribute.written_eq]
      rfl

/-- An optional slash and a name are read as those of a tag, and the text behind the name up to the
end of the tag as its body, without a slash that it ends in. -/
theorem read?_name_append {slash name after inner : Text} (hslash : slash = [] ∨ slash = ['/'])
    (halpha : name.head?.any Char.isAlpha = true) (hchars : ∀ c ∈ name, isNameChar c = true)
    (hstop : after.head?.all (!isNameChar ·) = true)
    (hclosing : '>' ∈ after.takeWhile (· != '<'))
    (hend : untilEnd none (after.takeWhile (· != '<')) = inner) :
    read? (slash ++ (name ++ after)) =
      some ⟨!slash.isEmpty, name, if inner.getLast? == some '/' then inner.dropLast else inner,
        inner.getLast? == some '/'⟩ := by
  obtain ⟨d, r, rfl⟩ : ∃ d r, after = d :: r :=
    List.exists_cons_of_ne_nil (by rintro rfl; cases hclosing)
  have hd : isNameChar d = false := by
    simpa using hstop
  obtain ⟨c, s, rfl⟩ := List.exists_cons_of_ne_nil (l := name) (by rintro rfl; cases halpha)
  have hhead : (c :: s ++ d :: r).head?.any Char.isAlpha = true := halpha
  rcases hslash with rfl | rfl
  · have hc : '/' ≠ c := (ne_of_class (hchars c List.mem_cons_self) (by decide)).symm
    have hstart : Text.startsWith (c :: s ++ d :: r) ['/'] = false := by
      simp [Text.startsWith, Text.afterPrefix?, hc]
    simp only [read?, List.nil_append, hstart, Bool.false_eq_true, if_false,
      takeWhile_append_cons hchars hd, dropWhile_append_cons hchars hd, hhead,
      List.contains_iff_mem.mpr hclosing, hend, Bool.and_self, if_true]
    rfl
  · have hstart : Text.startsWith ('/' :: (c :: s ++ d :: r)) ['/'] = true := by
      simp [Text.startsWith, Text.afterPrefix?]
    simp only [read?, List.singleton_append, hstart, if_true, List.drop_one, List.tail_cons,
      takeWhile_append_cons hchars hd, dropWhile_append_cons hchars hd, hhead,
      List.contains_iff_mem.mpr hclosing, hend, Bool.and_self]
    rfl

/-- The body of a tag that opens an element, with its slash, is read up to the `>`. -/
theorem untilEnd_body_slash {list : List WrittenAttribute} (hlist : ∀ a ∈ list, a.Valid)
    {slash : Text} (hslash : slash = [] ∨ slash = ['/']) (rest : Text) :
    '>' ∈ (Piece.body list ++ (slash ++ '>' :: rest)).takeWhile (· != '<') ∧
      untilEnd none ((Piece.body list ++ (slash ++ '>' :: rest)).takeWhile (· != '<')) =
        Piece.body list ++ slash := by
  have hplain : ∀ c ∈ slash, c ≠ '>' ∧ c ≠ '"' ∧ c ≠ '\'' := by
    rcases hslash with rfl | rfl <;> simp
  have hbracket : '<' ∉ Piece.body list ++ (slash ++ ['>']) := by
    rcases hslash with rfl | rfl <;> simp [not_mem_body hlist]
  have hsplit : Piece.body list ++ (slash ++ '>' :: rest) =
      Piece.body list ++ (slash ++ ['>']) ++ rest := by
    simp
  rw [hsplit, List.takeWhile_append_of_pos (bne_of_not_mem hbracket), List.append_assoc,
    List.append_assoc, List.singleton_append]
  refine ⟨by simp, ?_⟩
  rw [untilEnd_body hlist (by simp), untilEnd_append_of_plain hplain, untilEnd, if_pos rfl,
    List.append_nil]

/-- A tag that opens an element is read as it is written. -/
theorem atStart?_opening {name : Text} {list : List WrittenAttribute} (hname : IsElementName name)
    (hlist : ∀ a ∈ list, a.Valid) (slash : Bool) (rest : Text) :
    atStart? ('<' :: (name ++ Piece.body list ++ (if slash then ['/', '>'] else ['>'])) ++ rest) =
      some ⟨false, name, Piece.body list, slash⟩ := by
  let close : Text := if slash then ['/'] else []
  have htext : '<' :: (name ++ Piece.body list ++ (if slash then ['/', '>'] else ['>'])) ++ rest =
      '<' :: ([] ++ (name ++ (Piece.body list ++ (close ++ '>' :: rest)))) := by
    cases slash <;> simp [close]
  have hclose : close = [] ∨ close = ['/'] := by
    cases slash
    · exact Or.inl rfl
    · exact Or.inr rfl
  have hafter : (close ++ '>' :: rest).head?.all (!isNameChar ·) = true := by
    rcases hclose with hclose | hclose <;> rw [hclose] <;> rfl
  have hlast : ((Piece.body list ++ close).getLast? == some '/') = slash := by
    cases slash
    · have hne : (Piece.body list).getLast? ≠ some '/' := fun h => (getLast?_body hlist h).1 rfl
      simpa [close] using hne
    · simp [close]
  have hkept : (if slash then (Piece.body list ++ close).dropLast else Piece.body list ++ close) =
      Piece.body list := by
    cases slash <;> simp [close]
  obtain ⟨hclosing, hend⟩ := untilEnd_body_slash hlist hclose rest
  rw [htext, atStart?, read?_name_append (Or.inl rfl) hname.letter hname.nameChars
    (head?_body_append list hafter) hclosing hend, hlast, hkept]
  rfl

/-- A tag that closes an element is read as it is written. -/
theorem atStart?_closing {name : Text} (hname : IsElementName name) (rest : Text) :
    atStart? ('<' :: '/' :: (name ++ ['>']) ++ rest) = some ⟨true, name, [], false⟩ := by
  have htext : '<' :: '/' :: (name ++ ['>']) ++ rest =
      '<' :: (['/'] ++ (name ++ '>' :: rest)) := by
    simp
  have hclosing : ('>' :: rest).takeWhile (· != '<') = '>' :: rest.takeWhile (· != '<') :=
    List.takeWhile_cons_of_pos (by decide)
  rw [htext, atStart?, read?_name_append (Or.inr rfl) hname.letter hname.nameChars rfl
    (by rw [hclosing]; exact List.mem_cons_self) (by rw [hclosing, untilEnd, if_pos rfl])]
  rfl

end TagText

/-- A value between two of the same quote is read up to the second one. -/
theorem ValueText.read_between {q : Char} (hq : q = '"' ∨ q = '\'') {value more : Text}
    (hvalue : q ∉ value) (hmore : value = [] → more.head? ≠ some q) :
    ValueText.read (q :: (value ++ q :: more)) =
      ⟨[], q :: (value ++ [q]), value, if q = '"' then .double else .single⟩ := by
  have htake : (value ++ q :: more).takeWhile (· != q) = value :=
    takeWhile_append_cons (bne_of_not_mem hvalue) (bne_self_eq_false q)
  have hrun : ((value ++ q :: more).takeWhile (· == q)).length ≤ 1 := by
    cases value with
    | nil =>
        cases more with
        | nil => simp
        | cons d more =>
            have hd : ¬ d = q := by
              simpa using hmore
            simp [hd]
    | cons c r =>
        have hc : ¬ c = q := fun h => hvalue (h ▸ List.mem_cons_self)
        simp [hc]
  have hshort : ¬ 3 ≤ ((value ++ q :: more).takeWhile (· == q)).length + 1 := by
    omega
  have hblank : isWhiteSpace q = false := by
    rcases hq with rfl | rfl <;> decide
  simp [ValueText.read, trimStart, hblank, hshort, htake, hq]

/-- What follows the `=` behind the name of an attribute is read as its value. -/
theorem AttributeText.read?_append {name : Text}
    (hstart : name.head?.any AttributeText.isNameStart = true)
    (hchars : ∀ c ∈ name, isNameChar c = true) (w : Text) :
    AttributeText.read? (name ++ '=' :: w) = some ⟨name, [], ValueText.read w⟩ := by
  have hhead : (name ++ '=' :: w).head?.any AttributeText.isNameStart = true := by
    cases name with
    | nil => cases hstart
    | cons c r => exact hstart
  have hequals : isNameChar '=' = false := by
    decide
  have hblank : isWhiteSpace '=' = false := by
    decide
  rw [AttributeText.read?, if_pos hhead, takeWhile_append_cons hchars hequals,
    dropWhile_append_cons hchars hequals]
  simp [trimStart, hblank]

namespace WrittenAttribute

variable {a : WrittenAttribute}

/-- A value without quotes is read up to the next white space. -/
theorem read_unquoted {a : Attribute} (ha : a.ReadsUnquoted) {more : Text}
    (hmore : more.head?.all isWhiteSpace = true) :
    ValueText.read (a.value ++ more) = ⟨[], a.value, a.value, .unquoted⟩ := by
  have hplain : ∀ c ∈ a.value, (!isWhiteSpace c) = true := fun c hc => by
    simp [(ha.valueChars c hc).1]
  have htake : (a.value ++ more).takeWhile (fun c => !isWhiteSpace c) = a.value := by
    cases more with
    | nil => rw [List.takeWhile_append_of_pos hplain, List.takeWhile_nil, List.append_nil]
    | cons d more => exact takeWhile_append_cons hplain (by simpa using hmore)
  cases hvalue : a.value with
  | nil => exact absurd hvalue ha.value_ne_nil
  | cons c r =>
      have hc := ha.valueChars c (by simp [hvalue])
      have hdouble : ¬ c = '"' := by
        rintro rfl
        exact hc.2 (by decide)
      have hsingle : ¬ c = '\'' := by
        rintro rfl
        exact hc.2 (by decide)
      rw [hvalue] at htake
      rw [List.cons_append] at htake ⊢
      simp [ValueText.read, trimStart, hc.1, hdouble, hsingle, htake]

/-- An attribute is read as it is written, up to the next attribute. -/
theorem read?_toText (ha : a.Valid) {more : Text}
    (hmore : more.head?.all isWhiteSpace = true) :
    AttributeText.read? (a.attributeText.toText ++ more) = some a.attributeText := by
  have hstart : a.name.head?.any AttributeText.isNameStart = true := by
    have hname := ha.wellFormed.nameStart
    cases hcons : a.name with
    | nil => simp [hcons] at hname
    | cons c r => simpa [hcons] using hname
  have hchars : ∀ c ∈ a.name, isNameChar c = true := fun c hc =>
    Attribute.isNameChar_of_isNameChar (ha.wellFormed.nameChars c hc)
  have hvalue : ValueText.read (a.raw ++ more) = a.attributeText.written := by
    unfold raw attributeText
    split
    next hquoted =>
      have hnext : more.head? ≠ some '"' := fun hhead => by
        rw [hhead] at hmore
        exact absurd hmore (by decide)
      have hsplit : '"' :: (a.value ++ ['"']) ++ more = '"' :: (a.value ++ '"' :: more) := by
        simp
      rw [hsplit, ValueText.read_between (.inl rfl) ha.wellFormed.noQuote fun _ => hnext]
      simp [raw, hquoted]
    next hquoted =>
      simp [read_unquoted (ha.readsUnquoted (Bool.eq_false_iff.mpr hquoted)) hmore, raw, hquoted]
  have htext : a.attributeText.toText ++ more = a.name ++ '=' :: (a.raw ++ more) := by
    simp [attributeText, AttributeText.toText, AttributeText.beforeValue]
  rw [htext, AttributeText.read?_append hstart hchars, hvalue]
  rfl

/-- The attributes of a tag as they are read from an offset on. -/
def found (offset : Nat) : List WrittenAttribute → List (Nat × AttributeText)
  | [] => []
  | a :: rest => (offset + 1, a.attributeText) :: found (offset + Text.size a.written) rest

/-- What belongs to an attribute that has been read is not read again. -/
theorem all_skip (offset : Nat) (w more : Text) :
    AttributeText.all offset w.length (w ++ more) =
      AttributeText.all (offset + Text.size w) 0 more := by
  have hstep : ∀ offset skip c r, AttributeText.all offset (skip + 1) (c :: r) =
      AttributeText.all (offset + c.utf8Size) skip r := fun _ _ _ _ => rfl
  induction w generalizing offset with
  | nil => rfl
  | cons c r ih =>
      rw [List.cons_append, List.length_cons, hstep, ih, Text.size_cons, Nat.add_assoc]

/-- An attribute is read after white space. -/
theorem all_cons_of_read? {offset : Nat} {c : Char} {r : Text} {a : AttributeText}
    (hc : isWhiteSpace c = true) (h : AttributeText.read? r = some a) :
    AttributeText.all offset 0 (c :: r) =
      (offset + c.utf8Size, a) :: AttributeText.all (offset + c.utf8Size) a.toText.length r := by
  rw [AttributeText.all.eq_def]
  simp only [hc, if_true, h]

/-- All attributes are read, each where it is written. -/
theorem all_body {list : List WrittenAttribute} (hlist : ∀ a ∈ list, a.Valid) (offset : Nat) :
    AttributeText.all offset 0 (Piece.body list) = found offset list := by
  induction list generalizing offset with
  | nil => rfl
  | cons a rest ih =>
      rw [List.forall_mem_cons] at hlist
      have hblank : isWhiteSpace ' ' = true := by
        decide
      have hmore : (Piece.body rest).head?.all isWhiteSpace = true := by
        cases rest with
        | nil => rfl
        | cons b rest => exact hblank
      have hsplit : Piece.body (a :: rest) =
          ' ' :: (a.attributeText.toText ++ Piece.body rest) := by
        rw [← List.cons_append, ← written_eq_toText]
        rfl
      have hone : (' ').utf8Size = 1 := rfl
      rw [hsplit, all_cons_of_read? hblank (read?_toText hlist.1 hmore), all_skip, ih hlist.2,
        found, written_eq_toText, Text.size_cons, hone, Nat.add_assoc]

end WrittenAttribute

end MarkupRepair
