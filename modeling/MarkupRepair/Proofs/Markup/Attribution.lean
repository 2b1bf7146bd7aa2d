import MarkupRepair.Proofs.Markup.Printing

/-!
# An attribute behind the name of a tag

A tag with one more attribute in double quotes behind its name ends at the same bracket and is of
the same kind. The attribute is the first one that is read in it.
-/

namespace MarkupRepair

/-- An attribute in double quotes with a blank in front. -/
def quotedAttribute (name value : Text) : Text := ' ' :: (name ++ '=' :: '"' :: (value ++ ['"']))

/-- Whether a name and a value make an attribute that a tag can have in double quotes. -/
structure Quotable (name value : Text) : Prop where
  /-- The name begins like one. -/
  nameStart : name.head?.any AttributeText.isNameStart = true
  /-- The name has name characters only. -/
  nameChars : ∀ c ∈ name, isNameChar c = true
  /-- There is a value. -/
  value_ne_nil : value ≠ []
  /-- The value has none of the quotes around it. -/
  noQuote : '"' ∉ value
  /-- The value begins no tag. -/
  noBracket : '<' ∉ value

section Attribute

variable {name value : Text}

/-- The attribute can be printed. -/
theorem Quotable.printable (h : Quotable name value) :
    (⟨name, '"', value⟩ : QuotedAttribute).Printable :=
  ⟨h.nameStart, h.nameChars, .inl rfl, h.noQuote, h.noBracket⟩

/-- The attribute comes first, and the others are those of the body without it. -/
theorem Quotable.all_append (h : Quotable name value) (offset : Nat) (body : Text) :
    AttributeText.all offset 0 (quotedAttribute name value ++ body) =
      (offset + 1, ⟨name, [], [], '"' :: (value ++ ['"']), value, .double⟩) ::
        AttributeText.all (offset + Text.size (quotedAttribute name value)) 0 body :=
  h.printable.all_append (absurd · h.value_ne_nil) offset

/-- The attribute begins no tag. -/
theorem Quotable.bracket_not_mem (h : Quotable name value) : '<' ∉ quotedAttribute name value :=
  h.printable.bracket_not_mem

end Attribute

namespace TagText

variable {after slash tagName inner rest t w name value : Text}

/-- The tag with the attribute behind its name has the parts of the tag. -/
theorem Parts.attribute (h : Parts after slash tagName inner rest) (hq : Quotable name value) :
    Parts (slash ++ (tagName ++ (quotedAttribute name value ++ inner ++ '>' :: rest))) slash tagName
      (quotedAttribute name value ++ inner) rest where
  eq := rfl
  slash := h.slash
  letter := h.letter
  nameChars := h.nameChars
  maximal := rfl
  closes := ⟨_, rest, rfl, by simp [hq.bracket_not_mem, h.reads.not_mem h.closes]⟩
  reads := by
    rw [List.append_assoc]
    exact h.reads.quotedAttribute h.closes hq.printable

/-- Its kind stays the same. -/
theorem kind_ofParts_attribute (slash tagName inner name value : Text) :
    (ofParts slash tagName (quotedAttribute name value ++ inner)).kind =
      (ofParts slash tagName inner).kind := by
  have hend : quotedAttribute name value = ' ' :: (name ++ '=' :: '"' :: value) ++ ['"'] := by
    simp [quotedAttribute]
  have hlast : (quotedAttribute name value).getLast? = some '"' := by
    rw [hend, List.getLast?_concat]
  rw [kind_ofParts, kind_ofParts, List.getLast?_append, hlast]
  cases inner.getLast? <;> rfl

end TagText

end MarkupRepair
