import MarkupRepair.Proofs.Defect.Root
import MarkupRepair.Proofs.Text.Parts
import MarkupRepair.Repair.Fix

/-!
# Adding the declarations

The fixes for missing declarations put each of them where it stands in a document without
defects, whichever of the others are missing too.
-/

namespace MarkupRepair

open Piece

/-- The declaration of the XHTML namespace between double quotes. -/
def writtenNamespace : WrittenAttribute := ⟨.namespaceDeclaration, true⟩

theorem writtenNamespace_valid : writtenNamespace.Valid := by
  have hwell : Attribute.namespaceDeclaration.WellFormed := by
    decide
  exact ⟨hwell, nofun⟩

/-- Whether pieces are nested does not depend on attributes. -/
theorem Piece.Nested.withAttributes {form : TagForm} {name : Text} {list : List WrittenAttribute}
    {rest : List Piece} (h : Nested (tag form name list :: rest))
    (other : List WrittenAttribute) : Nested (tag form name other :: rest) := by
  cases h with
  | leaf hp hrest =>
      have hleaf : (tag form name other).isLeaf = true := by
        cases form <;> exact hp
      exact .leaf hleaf hrest
  | element name list hinner hrest => exact .element name other hinner hrest

namespace Rooted

variable {declared : Bool} {form : TagForm} {list : List WrittenAttribute} {rest : List Piece}

/-- A root element with its namespace declaration. -/
theorem withNamespace (h : Rooted false form list rest) :
    Rooted true form (writtenNamespace :: list) rest := by
  obtain ⟨⟨hname, hlist, hform⟩, hrest⟩ := List.forall_mem_cons.mp h.valid
  refine ⟨List.forall_mem_cons.mpr ⟨⟨hname, ?_, hform⟩, hrest⟩, ?_, ?_⟩
  · exact List.forall_mem_cons.mpr ⟨writtenNamespace_valid, hlist⟩
  · exact h.nested.withAttributes _
  · have hname : (writtenNamespace.name == "xmlns".toList) = true := beq_self_eq_true _
    have hfirst : (writtenNamespace :: list).find? (·.name == "xmlns".toList) =
        some writtenNamespace := List.find?_cons_of_pos hname
    rw [hfirst]
    rfl

/-- The namespace is declared right after the name of the root element. -/
theorem applyNamespace_document (h : Rooted false form list rest) (prolog doctype : Bool) :
    Fix.applyNamespace (document prolog doctype (tag form "html".toList list :: rest)) =
      some (document prolog doctype
        (tag form "html".toList (writtenNamespace :: list) :: rest)) := by
  generalize htext : document prolog doctype (tag form "html".toList list :: rest) = text
  let root : TagText := ⟨false, "html".toList, body list, form != .opening⟩
  have hroot : (scan text).root? = some (TagToken.ofText (LineIndex.ofText text)
      (Text.size (headerLines prolog doctype), root)) := htext ▸ h.root?_scan
  have hdeclared : (scan text).rootHasNamespace = false := htext ▸ h.rootHasNamespace_scan
  have hnone : (TagToken.ofText (LineIndex.ofText text)
      (Text.size (headerLines prolog doctype), root)).attributeNamed? "xmlns".toList = none :=
    Option.map_eq_none_iff.mp (h.attributeNamed?_root _ _)
  have hwritten : (tag form "html".toList list).written = root.toText := by
    rw [written_tag]
    cases form <;> simp [root, TagText.toText]
  have hslice : Text.slice? text ⟨Text.size (headerLines prolog doctype),
      Text.size (headerLines prolog doctype) + root.size⟩ = some root.toText := by
    rw [← htext, document, writtenAll_cons, hwritten]
    exact Text.slice?_append _ _ _
  have hread : TagText.atStart? root.toText = some root := by
    have hstart := TagText.atStart?_opening h.isElementName h.attributes_valid (form != .opening) []
    rw [List.append_nil, ← written_tag, hwritten] at hstart
    exact hstart
  rw [Fix.applyNamespace, hroot]
  dsimp only
  rw [hdeclared, if_neg Bool.false_ne_true, hnone]
  dsimp only [TagToken.ofText]
  rw [hslice, Option.bind_some, hread]
  have hopening : Text.size (headerLines prolog doctype) + 1 + Text.size root.name =
      Text.size (headerLines prolog doctype ++ '<' :: "html".toList) := by
    have hone : ('<').utf8Size = 1 := rfl
    rw [Text.size_append, Text.size_cons, hone, Nat.add_assoc]
  have hsplit : ∀ list, document prolog doctype (tag form "html".toList list :: rest) =
      headerLines prolog doctype ++ '<' :: "html".toList ++
        (body list ++ ((if form != .opening then ['/', '>'] else ['>']) ++ writtenAll rest)) := by
    intro list
    rw [document, writtenAll_cons, written_tag]
    simp only [List.append_assoc, List.cons_append]
  have hinserted : " xmlns=".toList ++ Fix.quotedNamespace = writtenNamespace.written := by
    decide
  dsimp only
  rw [hopening, ← htext, hsplit, Text.splice_insert, hinserted, hsplit]
  simp only [body, List.flatMap_cons, List.append_assoc]

/-- The document type comes after the XML declaration, if there is one. -/
theorem applyDoctype_document (h : Rooted declared form list rest) (prolog : Bool) :
    Fix.applyDoctype (document prolog false (tag form "html".toList list :: rest)) =
      some (document prolog true (tag form "html".toList list :: rest)) := by
  have hconforms : (scan (document prolog false
      (tag form "html".toList list :: rest))).doctypeConforms = false := h.doctypeConforms_scan
  have hdoctype : (scan (document prolog false
      (tag form "html".toList list :: rest))).doctype = none := doctype_scan_document h.valid
  have hprolog : (scan (document prolog false (tag form "html".toList list :: rest))).prolog =
      if prolog then some ⟨canonicalProlog, 0, Text.size canonicalProlog⟩ else none :=
    prolog_scan_document h.isElementName rest
  have hmark := markSize_document prolog false form h.isElementName list rest
  rw [Fix.applyDoctype, hconforms, if_neg Bool.false_ne_true, hdoctype, hprolog]
  cases prolog with
  | false =>
      rw [if_neg Bool.false_ne_true, hmark]
      exact congrArg some (Text.splice_insert [] _ _)
  | true =>
      have hsplit : document true false (tag form "html".toList list :: rest) =
          canonicalProlog ++ '\n' :: writtenAll (tag form "html".toList list :: rest) := by
        simp [document, headerLines]
      have hinsert := Text.splice_insert canonicalProlog
        ('\n' :: writtenAll (tag form "html".toList list :: rest)) ('\n' :: canonicalDoctype)
      rw [if_pos rfl, hsplit]
      dsimp only
      rw [hinsert]
      simp [document, headerLines]

/-- The XML declaration comes first. -/
theorem applyProlog_document (h : Rooted declared form list rest) (doctype : Bool) :
    Fix.applyProlog (document false doctype (tag form "html".toList list :: rest)) =
      some (document true doctype (tag form "html".toList list :: rest)) := by
  have hconforms : (scan (document false doctype
      (tag form "html".toList list :: rest))).prologConforms = false := h.prologConforms_scan
  have hprolog : (scan (document false doctype
      (tag form "html".toList list :: rest))).prolog = none :=
    prolog_scan_document h.isElementName rest
  have hmark := markSize_document false doctype form h.isElementName list rest
  rw [Fix.applyProlog, hconforms, if_neg Bool.false_ne_true, hprolog, hmark]
  exact congrArg some (Text.splice_insert [] _ _)

end Rooted

end MarkupRepair
