import MarkupRepair.Proofs.Defect.Scan

/-!
# The root element of a document in pieces

The first piece of a document is the tag of its root element. Whether the root declares the XHTML
namespace is read off the attributes of that tag.
-/

namespace MarkupRepair

/-- Nested pieces that begin with the tag of a root element, which declares the XHTML namespace
or has no attribute of that name. -/
structure Rooted (declared : Bool) (form : TagForm) (list : List WrittenAttribute)
    (rest : List Piece) : Prop where
  valid : ∀ p ∈ Piece.tag form "html".toList list :: rest, p.Valid
  nested : Piece.Nested (.tag form "html".toList list :: rest)
  namespaceValue : (list.find? (·.name == "xmlns".toList)).map (·.value) =
    if declared then some xhtmlNamespace else none

/-- The value of the first attribute of a name is read as it is written. -/
theorem map_value_find?_found (index : LineIndex) (offset : Nat) (list : List WrittenAttribute)
    (name : Text) :
    (((WrittenAttribute.found offset list).map (AttributeToken.ofText index)).find?
      (·.name == name)).map (·.value) = (list.find? (·.name == name)).map (·.value) := by
  induction list generalizing offset with
  | nil => rfl
  | cons a rest ih =>
      rw [WrittenAttribute.found, List.map_cons]
      have hname : (AttributeToken.ofText index (offset + 1, a.attributeText)).name = a.name := rfl
      by_cases h : a.name = name
      · rw [List.find?_cons_of_pos (by simpa [hname] using h),
          List.find?_cons_of_pos (by simpa using h)]
        rfl
      · rw [List.find?_cons_of_neg (by simpa [hname] using h),
          List.find?_cons_of_neg (by simpa using h), ih]

namespace Rooted

variable {prolog doctype declared : Bool} {form : TagForm} {list : List WrittenAttribute}
  {rest : List Piece}

theorem isElementName (h : Rooted declared form list rest) : IsElementName "html".toList :=
  (h.valid _ List.mem_cons_self).1

theorem attributes_valid (h : Rooted declared form list rest) : ∀ a ∈ list, a.Valid :=
  (h.valid _ List.mem_cons_self).2.1

/-- The root element is the first piece. -/
theorem root?_scan (h : Rooted declared form list rest) :
    (scan (document prolog doctype (.tag form "html".toList list :: rest))).root? =
      some (TagToken.ofText
        (LineIndex.ofText (document prolog doctype (.tag form "html".toList list :: rest)))
        (Text.size (headerLines prolog doctype),
          ⟨false, "html".toList, Piece.body list, form != .opening⟩)) := by
  let root := TagToken.ofText
    (LineIndex.ofText (document prolog doctype (.tag form "html".toList list :: rest)))
    (Text.size (headerLines prolog doctype),
      ⟨false, "html".toList, Piece.body list, form != .opening⟩)
  have hname : root.name = "html".toList := h.isElementName.toLowerAscii_eq
  have hkind : root.kind ≠ .closing := by
    cases form <;> exact nofun
  have hroot : (root.name == "html".toList && root.kind != .closing) = true := by
    rw [hname, beq_self_eq_true, Bool.true_and, bne_iff_ne]
    exact hkind
  rw [Scan.root?, tags_scan_document h.valid, Piece.tagsFrom, Piece.tag?, Option.map_some,
    Option.toList_some, List.singleton_append, List.map_cons]
  exact List.find?_cons_of_pos hroot

/-- The namespace that the root element declares is the value of its attribute. -/
theorem attributeNamed?_root (h : Rooted declared form list rest) (index : LineIndex)
    (offset : Nat) :
    ((TagToken.ofText index (offset, ⟨false, "html".toList, Piece.body list,
      form != .opening⟩)).attributeNamed? "xmlns".toList).map (·.value) =
        if declared then some xhtmlNamespace else none := by
  have hkind : (TagText.mk false "html".toList (Piece.body list) (form != .opening)).kind ≠
      .closing := by
    cases form <;> exact nofun
  simp only [TagToken.attributeNamed?, TagToken.ofText, hkind, if_false,
    WrittenAttribute.all_body h.attributes_valid, map_value_find?_found, h.namespaceValue]

theorem rootHasNamespace_scan (h : Rooted declared form list rest) :
    (scan (document prolog doctype (.tag form "html".toList list :: rest))).rootHasNamespace =
      declared := by
  have hvalue := h.attributeNamed?_root
    (LineIndex.ofText (document prolog doctype (.tag form "html".toList list :: rest)))
    (Text.size (headerLines prolog doctype))
  rw [Scan.rootHasNamespace, h.root?_scan, Option.bind_some]
  generalize (TagToken.ofText _ _).attributeNamed? "xmlns".toList = found at hvalue ⊢
  cases found with
  | none => cases declared <;> simp_all
  | some a => cases declared <;> simp_all

theorem prologConforms_scan (h : Rooted declared form list rest) :
    (scan (document prolog doctype (.tag form "html".toList list :: rest))).prologConforms =
      prolog := by
  have hcanonical : prologConforms canonicalProlog = true := by
    decide +kernel
  rw [Scan.prologConforms, prolog_scan_document h.isElementName]
  cases prolog with
  | false => rfl
  | true => exact hcanonical

theorem doctypeConforms_scan (h : Rooted declared form list rest) :
    (scan (document prolog doctype (.tag form "html".toList list :: rest))).doctypeConforms =
      doctype := by
  rw [Scan.doctypeConforms, doctype_scan_document h.valid]
  cases doctype <;> simp

end Rooted

end MarkupRepair
