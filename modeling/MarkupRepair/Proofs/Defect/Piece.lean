import MarkupRepair.Proofs.Defect.Tree
import MarkupRepair.Markup.Tag

/-!
# Marred documents in pieces

A document printed with defects falls into pieces that can be read one after another whatever
comes next: single characters, references, and tags. Every piece says how it is written and how
it is meant.
-/

namespace MarkupRepair

/-- An attribute with the choice of its quotes. -/
structure WrittenAttribute extends Attribute where
  /-- Whether it is printed between double quotes. -/
  quoted : Bool

namespace WrittenAttribute

/-- What can be read as it is meant. -/
structure Valid (a : WrittenAttribute) : Prop where
  wellFormed : a.WellFormed
  readsUnquoted : a.quoted = false → a.ReadsUnquoted

/-- The attribute as it is written. -/
def written (a : WrittenAttribute) : Text := a.print a.quoted

/-- The attribute between quotes. -/
def mended (a : WrittenAttribute) : WrittenAttribute := { a with quoted := true }

end WrittenAttribute

/-- The forms in which a tag that opens an element is written. -/
inductive TagForm where
  /-- An opening tag. -/
  | opening
  /-- The tag of a void element. -/
  | void
  /-- A container without children in self-closing form. -/
  | collapsed
  deriving DecidableEq, Repr

/-- A part of a document that is read by itself. -/
inductive Piece where
  /-- A character that is neither markup nor the start of a reference. -/
  | char (c : Char)
  /-- A terminated reference. -/
  | reference (name : Text)
  /-- A reference whose semicolon is missing, with the blank after it. -/
  | unterminated (name : Text)
  /-- An ampersand that is not escaped, with the blank after it. -/
  | ampersand
  /-- A tag that opens an element. -/
  | tag (form : TagForm) (name : Text) (attributes : List WrittenAttribute)
  /-- A tag that closes an element. -/
  | closing (name : Text)

namespace Piece

/-- The attributes of a tag as they are written. -/
def body (attributes : List WrittenAttribute) : Text := attributes.flatMap (·.written)

/-- The piece as it is written. -/
def written : Piece → Text
  | char c => [c]
  | reference name => '&' :: (name ++ [';'])
  | unterminated name => '&' :: (name ++ [' '])
  | ampersand => ['&', ' ']
  | tag .opening name attributes => '<' :: (name ++ body attributes ++ ['>'])
  | tag _ name attributes => '<' :: (name ++ body attributes ++ ['/', '>'])
  | closing name => '<' :: '/' :: (name ++ ['>'])

/-- The pieces that stand for what is meant. -/
def mended : Piece → List Piece
  | unterminated name => [reference name, char ' ']
  | ampersand => [reference "amp".toList, char ' ']
  | tag .collapsed name attributes =>
      [tag .opening name (attributes.map (·.mended)), closing name]
  | tag form name attributes => [tag form name (attributes.map (·.mended))]
  | p => [p]

/-- Number of defects of the piece. -/
def defects : Piece → Nat
  | unterminated _ | ampersand => 1
  | tag form _ attributes => attributes.countP (!·.quoted) + if form = .collapsed then 1 else 0
  | _ => 0

/-- What can be read as it is meant. -/
def Valid : Piece → Prop
  | char c => c ≠ '<' ∧ c ≠ '&'
  | reference name | unterminated name => IsEntityName name
  | ampersand => True
  | tag form name attributes =>
      IsElementName name ∧ (∀ a ∈ attributes, a.Valid) ∧
        match form with
        | .opening => isVoid name = false
        | .void => isVoid name = true
        | .collapsed => isContainer name = true
  | closing name => IsElementName name ∧ isVoid name = false

/-- Whether the piece leaves the open elements as they are. -/
def isLeaf : Piece → Bool
  | tag .opening _ _ | closing _ => false
  | _ => true

/-- Pieces one after another as they are written. -/
def writtenAll (pieces : List Piece) : Text := pieces.flatMap written

/-- Pieces one after another as they are meant. -/
def mendedAll (pieces : List Piece) : List Piece := pieces.flatMap mended

/-- Number of defects of all pieces. -/
def defectsAll : List Piece → Nat
  | [] => 0
  | p :: rest => p.defects + defectsAll rest

/-- Sequences of pieces in which every opened element is closed. -/
inductive Nested : List Piece → Prop where
  | nil : Nested []
  | leaf {p : Piece} (hp : p.isLeaf = true) {rest : List Piece} (h : Nested rest) :
      Nested (p :: rest)
  | element (name : Text) (attributes : List WrittenAttribute) {inner rest : List Piece}
      (hinner : Nested inner) (hrest : Nested rest) :
      Nested (tag .opening name attributes :: (inner ++ closing name :: rest))

@[simp] theorem writtenAll_nil : writtenAll [] = [] := rfl

@[simp] theorem writtenAll_cons (p : Piece) (rest : List Piece) :
    writtenAll (p :: rest) = p.written ++ writtenAll rest := rfl

@[simp] theorem writtenAll_append (a b : List Piece) :
    writtenAll (a ++ b) = writtenAll a ++ writtenAll b :=
  List.flatMap_append

@[simp] theorem mendedAll_nil : mendedAll [] = [] := rfl

@[simp] theorem mendedAll_cons (p : Piece) (rest : List Piece) :
    mendedAll (p :: rest) = p.mended ++ mendedAll rest := rfl

@[simp] theorem mendedAll_append (a b : List Piece) :
    mendedAll (a ++ b) = mendedAll a ++ mendedAll b :=
  List.flatMap_append

@[simp] theorem defectsAll_nil : defectsAll [] = 0 := rfl

@[simp] theorem defectsAll_cons (p : Piece) (rest : List Piece) :
    defectsAll (p :: rest) = p.defects + defectsAll rest := rfl

@[simp] theorem defectsAll_append (a b : List Piece) :
    defectsAll (a ++ b) = defectsAll a + defectsAll b := by
  induction a with
  | nil => simp
  | cons p rest ih => rw [List.cons_append, defectsAll_cons, defectsAll_cons, ih, Nat.add_assoc]

theorem Nested.append {a b : List Piece} (ha : Nested a) (hb : Nested b) : Nested (a ++ b) := by
  induction ha with
  | nil => exact hb
  | leaf hp _ ih => exact .leaf hp ih
  | element name attributes hinner _ _ ih =>
      rw [List.cons_append, List.append_assoc, List.cons_append]
      exact .element name attributes hinner ih

/-- Mended attributes can be read as they are meant. -/
theorem valid_of_mem_mended {list : List WrittenAttribute} (hlist : ∀ a ∈ list, a.Valid) :
    ∀ a ∈ list.map (·.mended), a.Valid := by
  intro a ha
  obtain ⟨b, hb, rfl⟩ := List.mem_map.mp ha
  exact ⟨(hlist b hb).wellFormed, nofun⟩

/-- No element is both void and a container. -/
theorem isVoid_of_isContainer {name : Text} (h : isContainer name = true) :
    isVoid name = false := by
  have hall : ∀ name ∈ containerElements, isVoid name = false := by
    decide +kernel
  exact hall name (List.contains_iff_mem.mp h)

/-- Mended pieces can be read as they are meant. -/
theorem Valid.mended {p : Piece} (hp : p.Valid) : ∀ q ∈ p.mended, q.Valid := by
  have hblank : (char ' ').Valid := ⟨by decide, by decide⟩
  cases p with
  | unterminated name => exact List.forall_mem_cons.mpr ⟨hp, by simpa using hblank⟩
  | ampersand =>
      have hamp : IsEntityName "amp".toList := by
        decide
      exact List.forall_mem_cons.mpr ⟨hamp, by simpa using hblank⟩
  | tag form name attributes =>
      obtain ⟨hname, hattributes, hform⟩ := hp
      have hmended := valid_of_mem_mended hattributes
      cases form with
      | collapsed =>
          have hvoid := isVoid_of_isContainer hform
          refine List.forall_mem_cons.mpr ⟨⟨hname, hmended, hvoid⟩, ?_⟩
          exact List.forall_mem_singleton.mpr ⟨hname, hvoid⟩
      | _ => exact List.forall_mem_singleton.mpr ⟨hname, hmended, hform⟩
  | _ => exact List.forall_mem_singleton.mpr hp

theorem valid_mendedAll {pieces : List Piece} (h : ∀ p ∈ pieces, p.Valid) :
    ∀ q ∈ mendedAll pieces, q.Valid := by
  intro q hq
  obtain ⟨p, hp, hq⟩ := List.mem_flatMap.mp hq
  exact (h p hp).mended q hq

/-- Mending keeps the elements nested. -/
theorem Nested.mendedAll {pieces : List Piece} (h : Nested pieces) : Nested (mendedAll pieces) := by
  induction h with
  | nil => exact .nil
  | @leaf p hp rest _ ih =>
      rw [mendedAll_cons]
      refine Nested.append ?_ ih
      cases p with
      | tag form name attributes =>
          cases form with
          | opening => cases hp
          | void => exact .leaf rfl .nil
          | collapsed => exact .element name _ .nil .nil
      | closing name => cases hp
      | char c => exact .leaf rfl .nil
      | reference name => exact .leaf rfl .nil
      | unterminated name => exact .leaf rfl (.leaf rfl .nil)
      | ampersand => exact .leaf rfl (.leaf rfl .nil)
  | element name attributes _ _ ihinner ihrest =>
      rw [mendedAll_cons, mendedAll_append, mendedAll_cons]
      exact .element name _ ihinner ihrest

/-- Mended pieces have no defects. -/
theorem defectsAll_mendedAll (pieces : List Piece) : defectsAll (mendedAll pieces) = 0 := by
  induction pieces with
  | nil => rfl
  | cons p rest ih =>
      rw [mendedAll_cons, defectsAll_append, ih]
      cases p with
      | tag form name attributes =>
          cases form <;> simp [mended, defects, WrittenAttribute.mended]
      | _ => rfl

end Piece

/-- Pieces that stand for a print with a number of defects. -/
structure Represents (pieces : List Piece) (meant written : Text) (n : Nat) : Prop where
  valid : ∀ p ∈ pieces, p.Valid
  nested : Piece.Nested pieces
  written_eq : written = Piece.writtenAll pieces
  meant_eq : meant = Piece.writtenAll (Piece.mendedAll pieces)
  defects_eq : n = Piece.defectsAll pieces

namespace Represents

theorem nil : Represents [] [] [] 0 := ⟨by simp, .nil, rfl, rfl, rfl⟩

variable {pieces rest : List Piece} {meant written meantRest writtenRest : Text} {n m : Nat}

theorem append (h : Represents pieces meant written n)
    (hrest : Represents rest meantRest writtenRest m) :
    Represents (pieces ++ rest) (meant ++ meantRest) (written ++ writtenRest) (n + m) := by
  refine ⟨?_, h.nested.append hrest.nested, ?_, ?_, ?_⟩
  · intro p hp
    rcases List.mem_append.mp hp with hp | hp
    · exact h.valid p hp
    · exact hrest.valid p hp
  · rw [h.written_eq, hrest.written_eq, Piece.writtenAll_append]
  · rw [h.meant_eq, hrest.meant_eq, Piece.mendedAll_append, Piece.writtenAll_append]
  · rw [h.defects_eq, hrest.defects_eq, Piece.defectsAll_append]

theorem leaf {p : Piece} (hp : p.Valid) (hleaf : p.isLeaf = true) :
    Represents [p] (Piece.writtenAll p.mended) p.written p.defects := by
  refine ⟨by simpa using hp, .leaf hleaf .nil, ?_, ?_, ?_⟩ <;> simp

theorem cons_leaf {p : Piece} (h : Represents pieces meant written n) (hp : p.Valid)
    (hleaf : p.isLeaf = true) : Represents (p :: pieces) (Piece.writtenAll p.mended ++ meant)
      (p.written ++ written) (p.defects + n) :=
  (leaf hp hleaf).append h

/-- An element whose opening tag may lack quotes, around other pieces. -/
theorem element {name : Text} {list : List WrittenAttribute} (hname : IsElementName name)
    (hlist : ∀ a ∈ list, a.Valid) (hvoid : isVoid name = false)
    (h : Represents pieces meant written n) :
    Represents (.tag .opening name list :: (pieces ++ [.closing name]))
      ('<' :: (name ++ Piece.body (list.map (·.mended)) ++
        '>' :: (meant ++ '<' :: '/' :: (name ++ ['>']))))
      ('<' :: (name ++ Piece.body list ++ '>' :: (written ++ '<' :: '/' :: (name ++ ['>']))))
      (list.countP (!·.quoted) + n) := by
  refine ⟨?_, .element name list h.nested .nil, ?_, ?_, ?_⟩
  · intro p hp
    rcases List.mem_cons.mp hp with rfl | hp
    · exact ⟨hname, hlist, hvoid⟩
    · rcases List.mem_append.mp hp with hp | hp
      · exact h.valid p hp
      · obtain rfl := List.mem_singleton.mp hp
        exact ⟨hname, hvoid⟩
  · simp [h.written_eq, Piece.written]
  · simp [h.meant_eq, Piece.written, Piece.mended]
  · simp [h.defects_eq, Piece.defects]

end Represents

/-- What comes before an ampersand is printed without defects. -/
theorem MarredText.exists_of_append {a t written : Text} {n : Nat} (ha : '&' ∉ a)
    (h : MarredText (a ++ t) written n) :
    ∃ rest, written = a ++ rest ∧ MarredText t rest n := by
  induction a generalizing written with
  | nil => exact ⟨written, rfl, h⟩
  | cons c r ih =>
      rw [List.mem_cons, not_or] at ha
      generalize hct : c :: r ++ t = whole at h
      cases h with
      | nil => cases hct
      | same d h =>
          obtain ⟨rfl, rfl⟩ := List.cons.inj hct
          obtain ⟨rest, rfl, hrest⟩ := ih ha.2 h
          exact ⟨rest, rfl, hrest⟩
      | unterminated hname h => exact absurd (List.cons.inj hct).1.symm ha.1
      | ampersand h => exact absurd (List.cons.inj hct).1.symm ha.1

theorem Terminated.of_append {a b : Text} (h : Terminated (a ++ b)) : Terminated b := by
  induction a with
  | nil => exact h
  | cons c r ih => exact ih h.2

/-- A marred text falls into pieces. -/
theorem MarredText.exists_represents {t written : Text} {n : Nat} (hbracket : '<' ∉ t)
    (hterminated : Terminated t) (h : MarredText t written n) :
    ∃ pieces, Represents pieces t written n := by
  -- A reference takes several characters at once, so the induction is on the length.
  induction hlength : t.length using Nat.strongRecOn generalizing t written n with
  | ind length ih =>
      subst hlength
      have hrest : ∀ {a b written : Text} {n : Nat}, a ≠ [] → t = a ++ b →
          MarredText b written n → ∃ pieces, Represents pieces b written n := by
        rintro a b written n ha rfl hb
        have hlt : b.length < (a ++ b).length := by
          rw [List.length_append]
          exact Nat.lt_add_of_pos_left (List.length_pos_iff.mpr ha)
        exact ih _ hlt (fun hmem => hbracket (List.mem_append_right _ hmem))
          hterminated.of_append hb rfl
      cases h with
      | nil => exact ⟨[], .nil⟩
      | @same c r written n h =>
          by_cases hc : c = '&'
          · subst hc
            obtain ⟨name, tail, hname, rfl⟩ := hterminated.1 rfl
            have hplain : '&' ∉ name ++ [';'] :=
              not_mem_append_of_class hname.2 (by decide) (by decide)
            have hsplit : name ++ ';' :: tail = (name ++ [';']) ++ tail := by simp
            rw [hsplit] at h hrest ⊢
            obtain ⟨rest, rfl, htail⟩ := h.exists_of_append hplain
            obtain ⟨pieces, hpieces⟩ :=
              hrest (a := '&' :: (name ++ [';'])) (List.cons_ne_nil _ _) rfl htail
            have hleaf := hpieces.cons_leaf (p := .reference name) hname rfl
            exact ⟨_, by simpa [Piece.mended, Piece.written, Piece.defects] using hleaf⟩
          · have hne : c ≠ '<' := fun heq => hbracket (heq ▸ List.mem_cons_self)
            obtain ⟨pieces, hpieces⟩ := hrest (a := [c]) (List.cons_ne_nil _ _) rfl h
            have hleaf := hpieces.cons_leaf (p := .char c) ⟨hne, hc⟩ rfl
            exact ⟨_, by simpa [Piece.mended, Piece.written, Piece.defects] using hleaf⟩
      | @unterminated name hname t written n h =>
          obtain ⟨pieces, hpieces⟩ :=
            hrest (a := '&' :: (name ++ [';', ' '])) (List.cons_ne_nil _ _) (by simp) h
          have hleaf := hpieces.cons_leaf (p := .unterminated name) hname rfl
          exact ⟨_, by simpa [Piece.mended, Piece.written, Piece.defects, Nat.add_comm] using hleaf⟩
      | @ampersand t written n h =>
          obtain ⟨pieces, hpieces⟩ := hrest (a := "&amp; ".toList) (by simp) rfl h
          have hleaf := hpieces.cons_leaf (p := .ampersand) trivial rfl
          exact ⟨_, by simpa [Piece.mended, Piece.written, Piece.defects, Nat.add_comm] using hleaf⟩

/-- Marred attributes are written attributes. -/
theorem MarredAttributes.exists_written {attributes : List Attribute} {written : Text} {n : Nat}
    (hwell : ∀ a ∈ attributes, a.WellFormed) (h : MarredAttributes attributes written n) :
    ∃ list : List WrittenAttribute, list.map (·.toAttribute) = attributes ∧
      (∀ a ∈ list, a.Valid) ∧ written = Piece.body list ∧ n = list.countP (!·.quoted) := by
  induction h with
  | nil => exact ⟨[], rfl, by simp, rfl, rfl⟩
  | quoted a h ih =>
      rw [List.forall_mem_cons] at hwell
      obtain ⟨list, rfl, hvalid, rfl, rfl⟩ := ih hwell.2
      refine ⟨⟨a, true⟩ :: list, rfl, ?_, rfl, ?_⟩
      · exact List.forall_mem_cons.mpr ⟨⟨hwell.1, by simp⟩, hvalid⟩
      · simp
  | @unquoted a ha rest written n h ih =>
      rw [List.forall_mem_cons] at hwell
      obtain ⟨list, rfl, hvalid, rfl, rfl⟩ := ih hwell.2
      refine ⟨⟨a, false⟩ :: list, rfl, ?_, rfl, ?_⟩
      · exact List.forall_mem_cons.mpr ⟨⟨hwell.1, fun _ => ha⟩, hvalid⟩
      · simp

/-- Mended attributes are printed between quotes. -/
theorem Piece.body_mended (list : List WrittenAttribute) :
    Piece.body (list.map (·.mended)) = printAttributes (list.map (·.toAttribute)) := by
  rw [Piece.body, printAttributes, List.flatMap_map, List.flatMap_map]
  rfl

/-- Marred nodes fall into pieces. -/
theorem Marred.exists_represents {nodes : Nodes} {written : Text} {n : Nat}
    (hwell : nodes.WellFormed) (h : Marred nodes written n) :
    ∃ pieces, Represents pieces nodes.print written n := by
  induction h with
  | none => exact ⟨[], .nil⟩
  | text h hnext ih =>
      obtain ⟨hbracket, hterminated, hwellNext⟩ := hwell
      obtain ⟨pieces, hpieces⟩ := h.exists_represents hbracket hterminated
      obtain ⟨rest, hrest⟩ := ih hwellNext
      exact ⟨pieces ++ rest, hpieces.append hrest⟩
  | @void name hvoid attributes written n h children next writtenNext m hnext ih =>
      obtain ⟨hname, hattributes, _, hwellNext⟩ := hwell
      obtain ⟨list, rfl, hvalid, rfl, rfl⟩ := h.exists_written hattributes
      obtain ⟨rest, hrest⟩ := ih hwellNext
      have hleaf := hrest.cons_leaf (p := .tag .void name list) ⟨hname, hvalid, hvoid⟩ rfl
      refine ⟨.tag .void name list :: rest, ?_⟩
      simpa [Nodes.print, hvoid, Piece.mended, Piece.written, Piece.defects, Piece.body_mended]
        using hleaf
  | @element name hvoid attributes written n h children inner k hchildren next writtenNext m
      hnext ihchildren ihnext =>
      obtain ⟨hname, hattributes, hwellChildren, hwellNext⟩ := hwell
      obtain ⟨list, rfl, hvalid, rfl, rfl⟩ := h.exists_written hattributes
      obtain ⟨pieces, hpieces⟩ := ihchildren hwellChildren
      obtain ⟨rest, hrest⟩ := ihnext hwellNext
      have helement := (Represents.element hname hvalid hvoid hpieces).append hrest
      refine ⟨(.tag .opening name list :: (pieces ++ [.closing name])) ++ rest, ?_⟩
      rw [Nodes.print, if_neg (by simp [hvoid]), ← Piece.body_mended]
      exact helement
  | @collapsed name hcontainer attributes written n h children hchildren next writtenNext m hnext
      ih =>
      obtain ⟨hname, hattributes, _, hwellNext⟩ := hwell
      obtain ⟨list, rfl, hvalid, rfl, rfl⟩ := h.exists_written hattributes
      obtain ⟨rest, hrest⟩ := ih hwellNext
      have hleaf := hrest.cons_leaf (p := .tag .collapsed name list) ⟨hname, hvalid, hcontainer⟩ rfl
      refine ⟨.tag .collapsed name list :: rest, ?_⟩
      simpa [Nodes.print, Piece.isVoid_of_isContainer hcontainer, hchildren, Piece.mended,
        Piece.written, Piece.defects, Piece.body_mended] using hleaf

/-- A marred element that takes children falls into pieces that begin with its tag. -/
theorem Marred.exists_represents_element {name : Text} {attributes : List Attribute}
    {children : Nodes} {written : Text} {n : Nat} (hvoid : isVoid name = false)
    (hwell : (Nodes.element name attributes children .none).WellFormed)
    (h : Marred (.element name attributes children .none) written n) :
    ∃ form list rest, list.map (·.toAttribute) = attributes ∧
      Represents (.tag form name list :: rest)
        (Nodes.element name attributes children .none).print written n := by
  obtain ⟨hname, hattributes, hchildren, _⟩ := hwell
  cases h with
  | void htrue => rw [hvoid] at htrue; cases htrue
  | element _ h hinner hnext =>
      cases hnext
      obtain ⟨list, rfl, hvalid, rfl, rfl⟩ := h.exists_written hattributes
      obtain ⟨pieces, hpieces⟩ := hinner.exists_represents hchildren
      refine ⟨.opening, list, pieces ++ [.closing name], rfl, ?_⟩
      have helement := Represents.element hname hvalid hvoid hpieces
      simpa [Nodes.print, hvoid, Piece.body_mended] using helement
  | collapsed hcontainer h hempty hnext =>
      cases hnext
      obtain ⟨list, rfl, hvalid, rfl, rfl⟩ := h.exists_written hattributes
      refine ⟨.collapsed, list, [], rfl, ?_⟩
      have hleaf := Represents.leaf (p := .tag .collapsed name list) ⟨hname, hvalid, hcontainer⟩ rfl
      simpa [Nodes.print, hvoid, hempty, Piece.mended, Piece.written, Piece.defects,
        Piece.body_mended] using hleaf

end MarkupRepair
