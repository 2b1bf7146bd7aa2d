import MarkupRepair.Markup.Attribute
import MarkupRepair.Markup.Element
import MarkupRepair.Markup.Header
import MarkupRepair.Proofs.Markup.Entity

/-!
# Element trees and defects in their print

Trees of elements and texts, their clean print as documents, and the prints in which quotes,
parts of references, closing tags or declarations are missing. The number that goes with such a
print says how many defects it has.
-/

namespace MarkupRepair

/-- Whether every ampersand of a text starts a reference with a name and a semicolon. -/
def Terminated : Text → Prop
  | [] => True
  | c :: r =>
      (c = '&' → ∃ name tail, IsEntityName name ∧ r = name ++ ';' :: tail) ∧ Terminated r

instance decidableTerminated : (t : Text) → Decidable (Terminated t)
  | [] => isTrue trivial
  | c :: r =>
      have := decidableTerminated r
      decidable_of_iff ((c = '&' → (EntityText.read r).terminated = true) ∧ Terminated r)
        (and_congr_left fun _ => imp_congr_right fun _ => EntityText.terminated_read_iff)

/-- An attribute of an element. -/
structure Attribute where
  /-- Its name. -/
  name : Text
  /-- Its value as it stands between double quotes. -/
  value : Text
  deriving DecidableEq, Repr

namespace Attribute

/-- Characters of attribute names. -/
def isNameChar (c : Char) : Bool := c.isAlphanum || c == '_' || c == ':' || c == '.' || c == '-'

/-- What an attribute needs to be printed between double quotes. -/
structure WellFormed (a : Attribute) : Prop where
  /-- The name begins with a letter or an underscore. -/
  nameStart : a.name.head?.any AttributeText.isNameStart = true
  /-- The name consists of name characters. -/
  nameChars : ∀ c ∈ a.name, isNameChar c = true
  /-- The value has no double quote. -/
  noQuote : '"' ∉ a.value
  /-- The value has no angle bracket that opens. -/
  noBracket : '<' ∉ a.value
  /-- The references of the value are terminated. -/
  terminated : Terminated a.value

/-- What an attribute needs to be read without quotes. -/
structure ReadsUnquoted (a : Attribute) : Prop where
  /-- There is a value. -/
  value_ne_nil : a.value ≠ []
  /-- The value has no character that ends it or leaves its end in doubt. -/
  valueChars : ∀ c ∈ a.value, isWhiteSpace c = false ∧ c ∉ ['"', '\'', '=', '<', '>', '`', '&', '/']

instance (a : Attribute) : Decidable a.WellFormed :=
  decidable_of_iff (a.name.head?.any AttributeText.isNameStart = true ∧
      a.name.all isNameChar = true ∧ '"' ∉ a.value ∧ '<' ∉ a.value ∧ Terminated a.value)
    ⟨fun ⟨h₁, h₂, h₃, h₄, h₅⟩ => ⟨h₁, List.all_eq_true.mp h₂, h₃, h₄, h₅⟩,
      fun h => ⟨h.nameStart, List.all_eq_true.mpr h.nameChars, h.noQuote, h.noBracket,
        h.terminated⟩⟩

instance (a : Attribute) : Decidable a.ReadsUnquoted :=
  decidable_of_iff (a.value ≠ [] ∧ a.value.all (fun c => decide (isWhiteSpace c = false ∧
      c ∉ ['"', '\'', '=', '<', '>', '`', '&', '/'])) = true)
    ⟨fun ⟨h₁, h₂⟩ => ⟨h₁, fun c hc => of_decide_eq_true (List.all_eq_true.mp h₂ c hc)⟩,
      fun h => ⟨h.value_ne_nil,
        List.all_eq_true.mpr fun c hc => decide_eq_true (h.valueChars c hc)⟩⟩

/-- The attribute as it is printed in a tag, with or without quotes. -/
def print (a : Attribute) (quoted : Bool) : Text :=
  ' ' :: (a.name ++ '=' :: if quoted then '"' :: (a.value ++ ['"']) else a.value)

/-- The declaration of the XHTML namespace. -/
def namespaceDeclaration : Attribute := ⟨"xmlns".toList, xhtmlNamespace⟩

end Attribute

/-- The attributes of a tag as they are printed without defects. -/
def printAttributes (attributes : List Attribute) : Text := attributes.flatMap (·.print true)

/-- A sequence of elements and texts. -/
inductive Nodes where
  /-- No nodes. -/
  | none
  /-- A text and the nodes after it. -/
  | text (t : Text) (next : Nodes)
  /-- An element with its attributes and the nodes in it, and the nodes after it. -/
  | element (name : Text) (attributes : List Attribute) (children next : Nodes)

/-- Whether a text can be the name of an element: small letters and digits, a letter first. -/
def IsElementName (name : Text) : Prop :=
  name.head?.any Char.isLower = true ∧ ∀ c ∈ name, c.isLower = true ∨ c.isDigit = true

instance : DecidablePred IsElementName := fun name =>
  decidable_of_iff (name.head?.any Char.isLower = true ∧
      name.all (fun c => c.isLower || c.isDigit) = true)
    (and_congr_right fun _ => by simp)

namespace Nodes

/-- What nodes need to be printed. -/
def WellFormed : Nodes → Prop
  | none => True
  | text t next => '<' ∉ t ∧ Terminated t ∧ next.WellFormed
  | element name attributes children next =>
      IsElementName name ∧ (∀ a ∈ attributes, a.WellFormed) ∧ children.WellFormed ∧
        next.WellFormed

instance decidableWellFormed : (nodes : Nodes) → Decidable nodes.WellFormed
  | none => isTrue trivial
  | text t next =>
      have := decidableWellFormed next
      inferInstanceAs (Decidable ('<' ∉ t ∧ Terminated t ∧ next.WellFormed))
  | element name attributes children next =>
      have := decidableWellFormed children
      have := decidableWellFormed next
      inferInstanceAs (Decidable (IsElementName name ∧ (∀ a ∈ attributes, a.WellFormed) ∧
        children.WellFormed ∧ next.WellFormed))

/-- The nodes as they are printed without defects. Void elements take no children. -/
def print : Nodes → Text
  | none => []
  | text t next => t ++ next.print
  | element name attributes children next =>
      '<' :: (name ++ printAttributes attributes ++
        (if isVoid name then ['/', '>']
          else '>' :: (children.print ++ '<' :: '/' :: (name ++ ['>'])))) ++ next.print

/-- The root element with its namespace declaration, if that is there. -/
def root (declared : Bool) (attributes : List Attribute) (children : Nodes) : Nodes :=
  element "html".toList
    (if declared then .namespaceDeclaration :: attributes else attributes) children none

end Nodes

/-- The lines in front of the root element, as far as they are there. -/
def headerLines (prolog doctype : Bool) : Text :=
  (if prolog then canonicalProlog ++ ['\n'] else []) ++
    (if doctype then canonicalDoctype ++ ['\n'] else [])

/-- The attributes of a tag printed with a number of defects: some of them are not quoted. -/
inductive MarredAttributes : List Attribute → Text → Nat → Prop where
  | nil : MarredAttributes [] [] 0
  | quoted (a : Attribute) {rest : List Attribute} {written : Text} {n : Nat}
      (h : MarredAttributes rest written n) :
      MarredAttributes (a :: rest) (a.print true ++ written) n
  | unquoted {a : Attribute} (ha : a.ReadsUnquoted) {rest : List Attribute} {written : Text}
      {n : Nat} (h : MarredAttributes rest written n) :
      MarredAttributes (a :: rest) (a.print false ++ written) (n + 1)

/-- A text printed with a number of defects: the semicolon of a reference, or the name and the
semicolon of an escaped ampersand, are missing in front of a blank. -/
inductive MarredText : Text → Text → Nat → Prop where
  | nil : MarredText [] [] 0
  | same (c : Char) {t written : Text} {n : Nat} (h : MarredText t written n) :
      MarredText (c :: t) (c :: written) n
  | unterminated {name : Text} (hname : IsEntityName name) {t written : Text} {n : Nat}
      (h : MarredText t written n) :
      MarredText ('&' :: (name ++ ';' :: ' ' :: t)) ('&' :: (name ++ ' ' :: written)) (n + 1)
  | ampersand {t written : Text} {n : Nat} (h : MarredText t written n) :
      MarredText ("&amp; ".toList ++ t) ('&' :: ' ' :: written) (n + 1)

/-- Nodes printed with a number of defects, those of their texts and attributes and those
containers without children that are printed in self-closing form. -/
inductive Marred : Nodes → Text → Nat → Prop where
  | none : Marred .none [] 0
  | text {t written : Text} {n : Nat} (h : MarredText t written n) {next : Nodes}
      {writtenNext : Text} {m : Nat} (hnext : Marred next writtenNext m) :
      Marred (.text t next) (written ++ writtenNext) (n + m)
  | void {name : Text} (hvoid : isVoid name = true) {attributes : List Attribute}
      {written : Text} {n : Nat} (h : MarredAttributes attributes written n) (children : Nodes)
      {next : Nodes} {writtenNext : Text} {m : Nat} (hnext : Marred next writtenNext m) :
      Marred (.element name attributes children next)
        ('<' :: (name ++ written ++ ['/', '>']) ++ writtenNext) (n + m)
  | element {name : Text} (hvoid : isVoid name = false) {attributes : List Attribute}
      {written : Text} {n : Nat} (h : MarredAttributes attributes written n) {children : Nodes}
      {inner : Text} {k : Nat} (hchildren : Marred children inner k) {next : Nodes}
      {writtenNext : Text} {m : Nat} (hnext : Marred next writtenNext m) :
      Marred (.element name attributes children next)
        ('<' :: (name ++ written ++ '>' :: (inner ++ '<' :: '/' :: (name ++ ['>']))) ++ writtenNext)
        (n + k + m)
  | collapsed {name : Text} (hcontainer : isContainer name = true) {attributes : List Attribute}
      {written : Text} {n : Nat} (h : MarredAttributes attributes written n) {children : Nodes}
      (hchildren : children.print = []) {next : Nodes} {writtenNext : Text} {m : Nat}
      (hnext : Marred next writtenNext m) :
      Marred (.element name attributes children next)
        ('<' :: (name ++ written ++ ['/', '>']) ++ writtenNext) (n + 1 + m)

/-- Nodes printed without defects. -/
theorem marred_print (nodes : Nodes) : Marred nodes nodes.print 0 := by
  have hattributes : ∀ attributes, MarredAttributes attributes (printAttributes attributes) 0 := by
    intro attributes
    induction attributes with
    | nil => exact .nil
    | cons a rest ih => exact .quoted a ih
  have htext : ∀ t, MarredText t t 0 := by
    intro t
    induction t with
    | nil => exact .nil
    | cons c r ih => exact .same c ih
  induction nodes with
  | none => exact .none
  | text t next ih => exact .text (htext t) ih
  | element name attributes children next ihchildren ihnext =>
      by_cases hvoid : isVoid name = true
      · rw [Nodes.print, if_pos hvoid]
        exact .void hvoid (hattributes attributes) children ihnext
      · rw [Nodes.print, if_neg hvoid]
        exact .element (Bool.eq_false_iff.mpr hvoid) (hattributes attributes) ihchildren ihnext

end MarkupRepair
