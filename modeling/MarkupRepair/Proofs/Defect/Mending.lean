import MarkupRepair.Proofs.Defect.Site
import MarkupRepair.Proofs.Markup.Scanning
import MarkupRepair.Proofs.Repair.Edits
import MarkupRepair.Proofs.Repair.Place

/-!
# Mending the defects

Every fix does its work at the site of its defect, because what comes before the site is still as
it was when the position was taken, and what comes after it is mended already. So applying the
fixes of all sites from the last to the first leads from the pieces as they are written to the
pieces as they are meant.
-/

namespace MarkupRepair

open RepairPlan

/-- A fix that recognises what comes after its site changes it. -/
theorem Site.apply_planned {s : Site} {after changed : Text}
    (h : (s.defect.fix s.position).editAt s.before.getLast? after = some changed) :
    s.planned.fix.apply (s.before ++ after) = some (s.before ++ changed) := by
  have hplace := Fix.applyInLine_append h
  obtain ⟨before, defect⟩ := s
  cases defect <;> exact hplace

section Edits

variable {name rest : Text}

/-- A reference in front of a blank gets its semicolon. -/
theorem Fix.terminateAt_append_blank (hname : IsEntityName name) (rest : Text) :
    terminateAt ('&' :: name) ('&' :: (name ++ ' ' :: rest)) =
      some ('&' :: (name ++ ';' :: ' ' :: rest)) := by
  rw [terminateAt_append rfl (by simp), if_neg hname.1]
  rfl

/-- An ampersand in front of a blank is escaped. -/
theorem Fix.terminateAt_ampersand (rest : Text) :
    terminateAt ['&'] ('&' :: ' ' :: rest) = some ("&amp;".toList ++ ' ' :: rest) := by
  have h : terminateAt ['&'] ('&' :: ([] ++ ' ' :: rest)) = _ :=
    terminateAt_append rfl (by simp)
  exact h

/-- An attribute without quotes gets them. -/
theorem Fix.quoteAt_print {a : Attribute} (ha : a.ReadsUnquoted)
    (hrest : endsValue rest = true) :
    quoteAt a.name a.value (some ' ') (a.name ++ '=' :: (a.value ++ rest)) =
      some (a.name ++ '=' :: '"' :: (a.value ++ '"' :: rest)) := by
  have hfilter : a.value.filter (fun c => c != '"' && c != '\'') = a.value := by
    rw [List.filter_eq_self]
    intro c hc
    have hchar := (ha.valueChars c hc).2
    simp only [List.mem_cons, not_or] at hchar
    simpa using And.intro hchar.1 hchar.2.1
  have hquoted : quoteAt a.name a.value (some ' ')
      (a.name ++ [] ++ '=' :: ([] ++ (a.value ++ rest))) = _ :=
    quoteAt_append (by decide) (by simp) (by simp) (by simp) hrest
  simpa [requote, hfilter] using hquoted

/-- The attributes of a tag end in no white space. -/
theorem trimEnd_body {list : List WrittenAttribute} (hlist : ∀ a ∈ list, a.Valid) :
    trimEnd (Piece.body list) = Piece.body list := by
  cases hlast : (Piece.body list).getLast? with
  | none =>
      rw [List.getLast?_eq_none_iff.mp hlast]
      rfl
  | some c =>
      obtain ⟨w, hw⟩ := List.getLast?_eq_some_iff.mp hlast
      have hc := (TagText.getLast?_body hlist hlast).2
      simp [trimEnd, hw, hc]

/-- A collapsed container gets its closing tag. -/
theorem Fix.expandAt_written {list : List WrittenAttribute} (hname : IsElementName name)
    (hlist : ∀ a ∈ list, a.Valid) (rest : Text) :
    expandAt name ('<' :: (name ++ Piece.body list ++ ['/', '>']) ++ rest) =
      some ('<' :: (name ++ Piece.body list ++ ['>']) ++
        ('<' :: '/' :: (name ++ ['>']) ++ rest)) := by
  have hread := TagText.atStart?_opening hname hlist true rest
  have htext : '<' :: (name ++ Piece.body list ++ ['/', '>']) =
      (TagText.mk false name (Piece.body list) true).toText := by
    simp [TagText.toText]
  rw [if_pos rfl, htext] at hread
  rw [htext, expandAt_append hread rfl rfl, trimEnd_body hlist]
  simp

end Edits

namespace Piece

/-- A site whose fix recognises what comes after it, and what the fix makes of it. -/
theorem applies_singleton {s : Site} {after changed : Text}
    (h : (s.defect.fix s.position).editAt s.before.getLast? after = some changed) :
    Applies ([s].reverse.map Site.planned) (s.before ++ after) (s.before ++ changed) :=
  .cons (Site.apply_planned h) (.nil _)

/-- A value may end where the attributes that follow it begin. -/
theorem endsValue_body_append {tail : Text} (htail : Fix.endsValue tail = true)
    (list : List WrittenAttribute) : Fix.endsValue (body list ++ tail) = true := by
  cases list with
  | nil => exact htail
  | cons a rest =>
      have hblank : isWhiteSpace ' ' = true := by
        decide
      have hcons : ∃ r, body (a :: rest) ++ tail = ' ' :: r := ⟨_, rfl⟩
      obtain ⟨r, hr⟩ := hcons
      rw [hr, Fix.endsValue, hblank, Bool.true_or, Bool.true_or]

/-- The attributes of a tag are quoted from the last to the first. -/
theorem applies_attributeSites {list : List WrittenAttribute} (hlist : ∀ a ∈ list, a.Valid)
    {tail : Text} (htail : Fix.endsValue tail = true) (before : Text) :
    Applies ((attributeSites before list).reverse.map Site.planned)
      (before ++ (body list ++ tail)) (before ++ (body (list.map (·.mended)) ++ tail)) := by
  induction list generalizing before with
  | nil => exact .nil _
  | cons a rest ih =>
      rw [List.forall_mem_cons] at hlist
      have hrest := ih hlist.2 (before ++ a.written)
      have hsplit : ∀ (a : WrittenAttribute) rest, before ++ (body (a :: rest) ++ tail) =
          before ++ a.written ++ (body rest ++ tail) := by
        intro a rest
        simp [body]
      rw [attributeSites, List.reverse_append, List.map_append, List.map_cons, hsplit, hsplit]
      refine hrest.append ?_
      cases hquoted : a.quoted with
      | true =>
          have hsame : a.mended.written = a.written := by
            simp [WrittenAttribute.written, WrittenAttribute.mended, hquoted]
          rw [hsame]
          exact .nil _
      | false =>
          have hends := endsValue_body_append htail (rest.map (·.mended))
          have hedit := Fix.quoteAt_print (hlist.1.readsUnquoted hquoted) hends
          have hlast : (before ++ [' ']).getLast? = some ' ' := List.getLast?_concat
          rw [← hlast] at hedit
          have happlies :=
            applies_singleton (s := ⟨before ++ [' '], .unquoted a.name a.value⟩) hedit
          simpa [WrittenAttribute.written, WrittenAttribute.mended, Attribute.print, hquoted]
            using happlies

/-- The fixes for a piece lead to what is meant. -/
theorem applies_sites {p : Piece} (hp : p.Valid) (before tail : Text) :
    Applies ((p.sites before).reverse.map Site.planned) (before ++ (p.written ++ tail))
      (before ++ (writtenAll p.mended ++ tail)) := by
  cases p with
  | unterminated name =>
      have hedit := Fix.terminateAt_append_blank hp tail
      have happlies := applies_singleton (s := ⟨before, .openReference ('&' :: name)⟩) hedit
      simpa [written, mended, sites] using happlies
  | ampersand =>
      have hedit : ((Defect.openReference ['&']).fix (Text.endPosition before)).editAt
          before.getLast? ('&' :: ' ' :: tail) = some ("&amp;".toList ++ ' ' :: tail) :=
        Fix.terminateAt_ampersand tail
      have happlies := applies_singleton (s := ⟨before, .openReference ['&']⟩) hedit
      simpa [written, mended, sites] using happlies
  | tag form name attributes =>
      obtain ⟨hname, hattributes, _⟩ := hp
      have hmended := valid_of_mem_mended hattributes
      have htail : Fix.endsValue ((if form != .opening then ['/', '>'] else ['>']) ++ tail) =
          true := by
        cases form <;> rfl
      have hquote := applies_attributeSites hattributes htail (before ++ '<' :: name)
      have hwritten : ∀ list, before ++ ((tag form name list).written ++ tail) =
          before ++ '<' :: name ++
            (body list ++ ((if form != .opening then ['/', '>'] else ['>']) ++ tail)) := by
        intro list
        simp [written_tag]
      rw [← hwritten, ← hwritten] at hquote
      rw [sites, List.reverse_append, List.map_append]
      refine hquote.append ?_
      cases form with
      | collapsed =>
          have hedit := Fix.expandAt_written hname hmended tail
          have happlies := applies_singleton (s := ⟨before, .collapsed name⟩) hedit
          simpa [written, mended] using happlies
      | _ =>
          simp only [mended, writtenAll_cons, writtenAll_nil, List.append_nil]
          exact .nil _
  | _ =>
      simp only [mended, writtenAll_cons, writtenAll_nil, List.append_nil]
      exact .nil _

/-- The fixes for all pieces lead to what is meant. -/
theorem applies_sitesAll {pieces : List Piece} (h : ∀ p ∈ pieces, p.Valid) (before tail : Text) :
    Applies ((sitesAll before pieces).reverse.map Site.planned)
      (before ++ writtenAll pieces ++ tail) (before ++ writtenAll (mendedAll pieces) ++ tail) := by
  induction pieces generalizing before tail with
  | nil => exact .nil _
  | cons p rest ih =>
      rw [List.forall_mem_cons] at h
      have hrest := ih h.2 (before ++ p.written) tail
      have hpiece := applies_sites h.1 before (writtenAll (mendedAll rest) ++ tail)
      rw [sitesAll, List.reverse_append, List.map_append, writtenAll_cons, mendedAll_cons,
        writtenAll_append]
      simp only [List.append_assoc] at hrest hpiece ⊢
      exact hrest.append hpiece

end Piece

end MarkupRepair
