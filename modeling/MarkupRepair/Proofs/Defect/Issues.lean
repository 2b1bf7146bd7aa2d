import MarkupRepair.Proofs.Defect.Root
import MarkupRepair.Proofs.Defect.Site
import MarkupRepair.Proofs.Issue.Analysis

/-!
# The issues of a document in pieces

The issues that the checks find in a document of nested pieces are the missing declarations and
the sites of the defects. Nothing else is taken for a defect.
-/

namespace MarkupRepair

/-- The checks that find defects of pieces. -/
inductive Check where
  /-- The tag balance. -/
  | balance
  /-- The check of the attributes. -/
  | attributes
  /-- The check of the references. -/
  | references
  deriving DecidableEq

/-- The check that finds a defect. -/
def Defect.check : Defect → Check
  | collapsed _ => .balance
  | unquoted _ _ => .attributes
  | openReference _ => .references

/-- The sites that a check finds. -/
def Check.found (check : Check) (sites : List Site) : List Site :=
  sites.filter fun s => s.defect.check == check

theorem Check.found_append (check : Check) (a b : List Site) :
    check.found (a ++ b) = check.found a ++ check.found b :=
  List.filter_append a b

/-- Every site is found by one of the checks. -/
theorem perm_found (sites : List Site) :
    (Check.balance.found sites ++ Check.attributes.found sites ++
      Check.references.found sites).Perm sites := by
  induction sites with
  | nil => exact .refl _
  | cons s rest ih =>
      obtain ⟨before, defect⟩ := s
      cases defect with
      | collapsed name => exact ih.cons _
      | unquoted name value =>
          refine List.Perm.trans ?_ (ih.cons _)
          exact List.perm_middle.append_right _
      | openReference entity =>
          refine List.Perm.trans ?_ (ih.cons _)
          exact List.perm_middle

namespace Piece

variable {p : Piece} {pieces : List Piece} {before tail text : Text}

theorem tagsFrom_append (offset : Nat) (a b : List Piece) :
    tagsFrom offset (a ++ b) =
      tagsFrom offset a ++ tagsFrom (offset + Text.size (writtenAll a)) b := by
  induction a generalizing offset with
  | nil => rfl
  | cons p rest ih =>
      rw [List.cons_append, tagsFrom, tagsFrom, ih, writtenAll_cons, Text.size_append,
        List.append_assoc, Nat.add_assoc]

theorem sitesAll_append (before : Text) (a b : List Piece) :
    sitesAll before (a ++ b) = sitesAll before a ++ sitesAll (before ++ writtenAll a) b := by
  induction a generalizing before with
  | nil => rw [List.nil_append, writtenAll_nil, List.append_nil, sitesAll, List.nil_append]
  | cons p rest ih =>
      rw [List.cons_append, sitesAll, sitesAll, ih, writtenAll_cons, List.append_assoc,
        List.append_assoc]

/-- The sites in attributes are found by their check alone. -/
theorem found_attributeSites (check : Check) (before : Text) (list : List WrittenAttribute) :
    check.found (attributeSites before list) =
      if check = .attributes then attributeSites before list else [] := by
  have hcheck : ∀ s ∈ attributeSites before list, s.defect.check = .attributes := by
    induction list generalizing before with
    | nil => simp [attributeSites]
    | cons a rest ih =>
        intro s hs
        rcases List.mem_append.mp hs with hs | hs
        · cases hquoted : a.quoted with
          | true => simp [hquoted] at hs
          | false =>
              rw [hquoted, if_neg Bool.false_ne_true, List.mem_singleton] at hs
              rw [hs]
              rfl
        · exact ih _ s hs
  split
  next h =>
    refine List.filter_eq_self.mpr ?_
    intro s hs
    rw [hcheck s hs, h, beq_self_eq_true]
  next h =>
    refine List.filter_eq_nil_iff.mpr ?_
    intro s hs
    rw [hcheck s hs, beq_iff_eq]
    exact Ne.symm h

section Balance

open Balance

/-- The tag of an element that has no children leaves the open elements as they are. -/
theorem step_selfClosing {form : TagForm} {name : Text} {attributes : List WrittenAttribute}
    (hp : (tag form name attributes).Valid) (hform : form ≠ .opening) (index : LineIndex)
    (offset : Nat) (stack : List TagToken) :
    step stack (TagToken.ofText index (offset, ⟨false, name, body attributes, true⟩)) =
      (stack, if form = .collapsed then
        [⟨.selfClosedContainer name, index.position offset⟩] else []) := by
  obtain ⟨hname, _, hkind⟩ := hp
  have hcontainer : isContainer name = (form == .collapsed) := by
    cases form with
    | opening => exact absurd rfl hform
    | void =>
        cases hcontainer : isContainer name with
        | false => rfl
        | true => rw [isVoid_of_isContainer hcontainer] at hkind; cases hkind
    | collapsed => exact hkind
  simp only [step, TagToken.ofText, TagText.kind, hname.toLowerAscii_eq, hcontainer]
  cases form <;> rfl

/-- The tag that opens an element puts it on the stack. -/
theorem step_opening {name : Text} {attributes : List WrittenAttribute}
    (hp : (tag .opening name attributes).Valid) (index : LineIndex) (offset : Nat)
    (stack : List TagToken) :
    step stack (TagToken.ofText index (offset, ⟨false, name, body attributes, false⟩)) =
      (TagToken.ofText index (offset, ⟨false, name, body attributes, false⟩) :: stack, []) := by
  obtain ⟨hname, _, hvoid⟩ := hp
  have hopen : isVoid (Text.toLowerAscii name) = false := by
    rw [hname.toLowerAscii_eq, hvoid]
  simp [step, TagToken.ofText, TagText.kind, hopen]

/-- The tag that closes the innermost element takes it from the stack. -/
theorem step_closing {name : Text} (hp : (closing name).Valid) {frame : TagToken}
    (hframe : frame.name = Text.toLowerAscii name) (index : LineIndex) (offset : Nat)
    (stack : List TagToken) :
    step (frame :: stack) (TagToken.ofText index (offset, ⟨true, name, [], false⟩)) =
      (stack, []) := by
  have hopen : isVoid (Text.toLowerAscii name) = false := by
    rw [hp.1.toLowerAscii_eq, hp.2]
  simp [step, TagToken.ofText, TagText.kind, hopen, unwind?, hframe]

/-- A piece that needs no closing tag leaves the open elements as they are, and the balance finds it
when it is a collapsed container. -/
theorem faultsFrom_tag?_of_isLeaf (hp : p.Valid) (hleaf : p.isLeaf = true)
    (htext : text = before ++ tail) (stack more : List TagToken) :
    faultsFrom stack ((p.tag?.map fun t => (Text.size before, t)).toList.map
        (TagToken.ofText (LineIndex.ofText text)) ++ more) =
      (Check.balance.found (p.sites before)).map (fun s => ⟨s.defect.kind, s.position⟩) ++
        faultsFrom stack more := by
  cases p with
  | tag form name attributes =>
      have hform : form ≠ .opening := by
        rintro rfl
        cases hleaf
      have hslash : (form != .opening) = true := bne_iff_ne.mpr hform
      have hposition : (LineIndex.ofText text).position (Text.size before) =
          Text.endPosition before := by
        rw [htext]
        exact LineIndex.position_ofText_append before tail
      rw [tag?, hslash, Option.map_some, Option.toList_some, List.map_singleton,
        List.singleton_append, faultsFrom_cons, step_selfClosing hp hform, hposition, sites,
        Check.found_append, found_attributeSites]
      cases form with
      | opening => exact absurd rfl hform
      | void => rfl
      | collapsed => rfl
  | closing name => cases hleaf
  | _ => rfl

/-- The tags of an element are its opening tag, those inside of it and its closing tag. -/
theorem tagsFrom_element (offset : Nat) (name : Text) (attributes : List WrittenAttribute)
    (inner rest : List Piece) :
    tagsFrom offset (tag .opening name attributes :: (inner ++ closing name :: rest)) =
      (offset, ⟨false, name, body attributes, false⟩) ::
        (tagsFrom (offset + Text.size (tag .opening name attributes).written) inner ++
          (offset + Text.size ((tag .opening name attributes).written ++ writtenAll inner),
            ⟨true, name, [], false⟩) ::
          tagsFrom (offset + Text.size ((tag .opening name attributes).written ++
            writtenAll inner ++ (closing name).written)) rest) := by
  simp [tagsFrom, tagsFrom_append, tag?, Nat.add_assoc]

/-- The tags of an element have no faults of their own. -/
theorem found_balance_sitesAll_element (before name : Text) (attributes : List WrittenAttribute)
    (inner rest : List Piece) :
    Check.balance.found (sitesAll before
        (tag .opening name attributes :: (inner ++ closing name :: rest))) =
      Check.balance.found (sitesAll (before ++ (tag .opening name attributes).written) inner) ++
        Check.balance.found (sitesAll (before ++ ((tag .opening name attributes).written ++
          writtenAll inner ++ (closing name).written)) rest) := by
  rw [sitesAll, sitesAll_append, sitesAll, Check.found_append, Check.found_append,
    Check.found_append, sites, Check.found_append, found_attributeSites, List.append_assoc before,
    List.append_assoc before]
  rfl

/-- The balance of nested pieces finds the collapsed containers and nothing else. -/
theorem faultsFrom_tagsFrom (h : ∀ p ∈ pieces, p.Valid) (hnested : Nested pieces)
    (htext : text = before ++ writtenAll pieces ++ tail) (stack more : List TagToken) :
    faultsFrom stack ((tagsFrom (Text.size before) pieces).map
        (TagToken.ofText (LineIndex.ofText text)) ++ more) =
      (Check.balance.found (sitesAll before pieces)).map
          (fun s => ⟨s.defect.kind, s.position⟩) ++ faultsFrom stack more := by
  induction hnested generalizing before tail stack more with
  | nil => rfl
  | @leaf p hleaf rest _ ih =>
      rw [List.forall_mem_cons] at h
      have hbefore : text = before ++ (p.written ++ writtenAll rest ++ tail) := by
        simp [htext]
      have hrest : text = before ++ p.written ++ writtenAll rest ++ tail := by
        simp [htext]
      rw [tagsFrom, sitesAll, Check.found_append, List.map_append, List.map_append,
        List.append_assoc, List.append_assoc, faultsFrom_tag?_of_isLeaf h.1 hleaf hbefore,
        ← Text.size_append, ih h.2 hrest stack more]
  | @element name attributes inner rest _ _ ihinner ihrest =>
      simp only [List.forall_mem_cons, List.forall_mem_append] at h
      obtain ⟨hopening, hinner, hclosing, hrest⟩ := h
      let index := LineIndex.ofText text
      let opened := (tag .opening name attributes).written
      let closed := opened ++ writtenAll inner ++ (closing name).written
      let frame := TagToken.ofText index (Text.size before, ⟨false, name, body attributes, false⟩)
      have htextInner : text = before ++ opened ++ writtenAll inner ++
          ((closing name).written ++ writtenAll rest ++ tail) := by
        simp [htext, opened]
      have htextRest : text = before ++ closed ++ writtenAll rest ++ tail := by
        simp [htext, opened, closed]
      have hpush : step stack frame = (frame :: stack, []) := step_opening hopening index _ stack
      have hpop : step (frame :: stack) (TagToken.ofText index
          (Text.size before + Text.size (opened ++ writtenAll inner), ⟨true, name, [], false⟩)) =
            (stack, []) :=
        step_closing hclosing rfl index _ stack
      rw [tagsFrom_element, found_balance_sitesAll_element, List.map_cons, List.map_append,
        List.map_cons, List.cons_append, List.append_assoc, List.cons_append, faultsFrom_cons,
        hpush, List.nil_append, ← Text.size_append, ihinner hinner htextInner, faultsFrom_cons,
        hpop, List.nil_append, ← Text.size_append before closed, ihrest hrest htextRest,
        List.map_append, List.append_assoc]

end Balance

section Attributes

/-- The attributes of a tag that have no quotes are found, each where its name starts. -/
theorem filterMap_fault?_found {list : List WrittenAttribute} (hlist : ∀ a ∈ list, a.Valid)
    (htext : text = before ++ body list ++ tail) (issue : IssueKind → Option Position → Issue) :
    ((WrittenAttribute.found (Text.size before) list).map
        (AttributeToken.ofText (LineIndex.ofText text))).filterMap
          (fun a => a.fault?.map fun kind => issue kind (some a.position)) =
      (attributeSites before list).map fun s => issue s.defect.kind (some s.position) := by
  induction list generalizing before with
  | nil => rfl
  | cons a rest ih =>
      rw [List.forall_mem_cons] at hlist
      obtain ⟨ha, hrest⟩ := hlist
      have hnext : text = before ++ a.written ++ body rest ++ tail := by
        simp [htext, body]
      have hih := ih hrest hnext
      have hone : (' ').utf8Size = 1 := rfl
      have hposition : (LineIndex.ofText text).position (Text.size before + 1) =
          Text.endPosition (before ++ [' ']) := by
        have hsplit : text =
            (before ++ [' ']) ++ (a.name ++ '=' :: a.raw ++ body rest ++ tail) := by
          simp [hnext, WrittenAttribute.written_eq]
        have hsize : Text.size before + 1 = Text.size (before ++ [' ']) := by
          simp [hone]
        rw [hsplit, hsize]
        exact LineIndex.position_ofText_append _ _
      rw [Text.size_append] at hih
      rw [WrittenAttribute.found, attributeSites, List.map_cons, List.filterMap_cons,
        List.map_append, hih]
      cases hquoted : a.quoted with
      | true =>
          simp [AttributeToken.ofText, AttributeToken.fault?, WrittenAttribute.attributeText,
            hquoted]
      | false =>
          have hreads := ha.readsUnquoted hquoted
          have hclear : isAmbiguousUnquoted a.value = false := by
            have hnonempty : a.value.isEmpty = false := by
              simpa using hreads.value_ne_nil
            have hchars : a.value.any (fun c => c == '=' || c == '<' || c == '`' || c == '"' ||
                c == '\'') = false := by
              rw [List.any_eq_false]
              intro c hc
              have hchar := (hreads.valueChars c hc).2
              simp only [List.mem_cons, not_or] at hchar
              simp [hchar]
            rw [isAmbiguousUnquoted, hnonempty, hchars, Bool.false_or]
          simp [AttributeToken.ofText, AttributeToken.fault?, WrittenAttribute.attributeText,
            WrittenAttribute.raw, hquoted, hclear, hposition, Site.position, Defect.kind]

/-- The check of the attributes finds those without quotes. -/
theorem filterMap_fault?_tagsFrom (h : ∀ p ∈ pieces, p.Valid)
    (htext : text = before ++ writtenAll pieces ++ tail)
    (issue : IssueKind → Option Position → Issue) :
    (((tagsFrom (Text.size before) pieces).map
        (TagToken.ofText (LineIndex.ofText text))).flatMap (·.attributes)).filterMap
          (fun a => a.fault?.map fun kind => issue kind (some a.position)) =
      (Check.attributes.found (sitesAll before pieces)).map
        fun s => issue s.defect.kind (some s.position) := by
  induction pieces generalizing before with
  | nil => rfl
  | cons p rest ih =>
      rw [List.forall_mem_cons] at h
      have hrest : text = before ++ p.written ++ writtenAll rest ++ tail := by
        simp [htext]
      have hih := ih h.2 hrest
      rw [Text.size_append] at hih
      rw [tagsFrom, sitesAll, Check.found_append, List.map_append, List.map_append,
        List.flatMap_append, List.filterMap_append, hih]
      cases p with
      | tag form name attributes =>
          obtain ⟨⟨hname, hattributes, _⟩, _⟩ := h
          have hbody : ∃ rest, text = (before ++ '<' :: name) ++ body attributes ++ rest := by
            rw [hrest, written_tag]
            exact ⟨_, by simp [List.append_assoc]; rfl⟩
          obtain ⟨after, hbody⟩ := hbody
          have hone : ('<').utf8Size = 1 := rfl
          have hoffset : Text.size before + (1 + 0 + Text.size name) =
              Text.size (before ++ '<' :: name) := by
            simp [hone]
          have hopens : ∀ slash,
              (TagText.mk false name (body attributes) slash).kind ≠ .closing := by
            intro slash
            cases slash <;> simp [TagText.kind]
          have hcollapsed : Check.attributes.found
              (if form = .collapsed then [⟨before, .collapsed name⟩] else []) = [] := by
            cases form <;> rfl
          have hfound := filterMap_fault?_found hattributes hbody issue
          rw [sites, Check.found_append, hcollapsed, found_attributeSites, if_pos rfl,
            List.nil_append, ← hfound, ← hoffset]
          simp [tag?, TagToken.ofText, hopens, TagText.bodyOffset,
            WrittenAttribute.all_body hattributes]
      | _ => rfl

end Attributes

section References

/-- The check of the references finds those without a semicolon. -/
theorem map_openReferencesFrom (htext : text = before ++ writtenAll pieces ++ tail)
    (issue : IssueKind → Option Position → Issue) :
    ((openReferencesFrom (Text.size before) pieces).map
        (EntityToken.ofText (LineIndex.ofText text))).map
          (fun e => issue (.invalidEntity e.text) (some e.position)) =
      (Check.references.found (sitesAll before pieces)).map
        fun s => issue s.defect.kind (some s.position) := by
  induction pieces generalizing before with
  | nil => rfl
  | cons p rest ih =>
      have hrest : text = before ++ p.written ++ writtenAll rest ++ tail := by
        simp [htext]
      have hih := ih hrest
      rw [Text.size_append] at hih
      have hposition : (LineIndex.ofText text).position (Text.size before) =
          Text.endPosition before := by
        rw [htext, List.append_assoc]
        exact LineIndex.position_ofText_append before _
      rw [openReferencesFrom, sitesAll, Check.found_append, List.map_append, List.map_append,
        List.map_append, hih]
      cases p with
      | unterminated name =>
          simp [openReference?, EntityToken.ofText, EntityText.text, hposition, sites, Check.found,
            Defect.check, Defect.kind, Site.position]
      | ampersand =>
          simp [openReference?, EntityToken.ofText, EntityText.text, hposition, sites, Check.found,
            Defect.check, Defect.kind, Site.position]
      | tag form name attributes =>
          rw [sites, Check.found_append, found_attributeSites]
          cases form <;> rfl
      | _ => rfl

end References

end Piece

/-- The issues of a document that lacks declarations. -/
def declarationIssuesOf (prolog doctype declared : Bool) : List Issue :=
  (if prolog then [] else [classify doctype (.missingXmlDeclaration none) none]) ++
    (if doctype then [] else [classify doctype (.missingDoctype none) none]) ++
      if declared then [] else [classify doctype .missingNamespace none]

namespace Rooted

variable {prolog doctype declared : Bool} {form : TagForm} {list : List WrittenAttribute}
  {rest : List Piece}

theorem issue_scan (h : Rooted declared form list rest) :
    (scan (document prolog doctype (.tag form "html".toList list :: rest))).issue =
      classify doctype := by
  funext kind position
  rw [Scan.issue, doctype_scan_document h.valid]
  cases doctype <;> rfl

theorem declarationIssues_scan (h : Rooted declared form list rest) :
    (scan (document prolog doctype (.tag form "html".toList list :: rest))).declarationIssues =
      declarationIssuesOf prolog doctype declared := by
  rw [Scan.declarationIssues, h.prologConforms_scan, h.doctypeConforms_scan,
    h.rootHasNamespace_scan, h.issue_scan, prolog_scan_document h.isElementName,
    doctype_scan_document h.valid, declarationIssuesOf]
  cases prolog <;> cases doctype <;> cases declared <;> rfl

/-- The checks find the declarations that are missing and the sites of the defects. -/
theorem foundIssues_perm (h : Rooted declared form list rest) :
    (scan (document prolog doctype (.tag form "html".toList list :: rest))).foundIssues.Perm
      (declarationIssuesOf prolog doctype declared ++
        (Piece.sitesAll (headerLines prolog doctype) (.tag form "html".toList list :: rest)).map
          (Site.issue doctype)) := by
  generalize hpieces : Piece.tag form "html".toList list :: rest = pieces
  have htext : document prolog doctype pieces =
      headerLines prolog doctype ++ Piece.writtenAll pieces ++ [] :=
    (List.append_nil _).symm
  have hvalid : ∀ p ∈ pieces, p.Valid := hpieces ▸ h.valid
  have hissue : (scan (document prolog doctype pieces)).issue = classify doctype :=
    hpieces ▸ h.issue_scan
  have hdeclarations : (scan (document prolog doctype pieces)).declarationIssues =
      declarationIssuesOf prolog doctype declared :=
    hpieces ▸ h.declarationIssues_scan
  have hbalance : (scan (document prolog doctype pieces)).balanceIssues =
      (Check.balance.found (Piece.sitesAll (headerLines prolog doctype) pieces)).map
        (Site.issue doctype) := by
    have hfaults := Piece.faultsFrom_tagsFrom hvalid (hpieces ▸ h.nested) htext [] []
    rw [List.append_nil] at hfaults
    rw [Scan.balanceIssues, hissue, tags_scan_document hvalid, Balance.faults, hfaults]
    simp [Balance.faultsFrom, Site.issue]
  have hattributes : (scan (document prolog doctype pieces)).attributeIssues =
      (Check.attributes.found (Piece.sitesAll (headerLines prolog doctype) pieces)).map
        (Site.issue doctype) := by
    rw [Scan.attributeIssues, hissue, tags_scan_document hvalid]
    exact Piece.filterMap_fault?_tagsFrom hvalid htext (classify doctype)
  have hreferences : (scan (document prolog doctype pieces)).entityIssues =
      (Check.references.found (Piece.sitesAll (headerLines prolog doctype) pieces)).map
        (Site.issue doctype) := by
    rw [Scan.entityIssues, hissue, openEntities_scan_document hvalid]
    exact Piece.map_openReferencesFrom htext (classify doctype)
  rw [Scan.foundIssues, hdeclarations, hbalance, hattributes, hreferences, List.append_assoc,
    List.append_assoc, ← List.append_assoc (List.map _ _), ← List.map_append, ← List.map_append]
  exact ((perm_found _).map _).append_left _

end Rooted

end MarkupRepair
