/-!
# JSON values

The values that reports are encoded to, with objects as lists of fields in the order in which
they are written, and the look-up of fields that decoding needs.
-/

namespace MarkupRepair

/-- A JSON value. -/
inductive Json where
  | null
  | bool (b : Bool)
  /-- A number without sign, fraction or exponent. -/
  | nat (n : Nat)
  /-- Any other number, as it is written. -/
  | numeral (literal : String)
  | str (s : String)
  | arr (items : List Json)
  | obj (fields : List (String × Json))
  deriving Repr, Inhabited

namespace Json

/-- The value of the first field of a given name. -/
def lookup? (name : String) : List (String × Json) → Option Json
  | [] => none
  | (key, value) :: rest => if key = name then some value else lookup? name rest

@[simp] theorem lookup?_nil (name : String) : lookup? name [] = none := rfl

@[simp] theorem lookup?_cons (name key : String) (value : Json) (rest : List (String × Json)) :
    lookup? name ((key, value) :: rest) = if key = name then some value else lookup? name rest :=
  rfl

theorem lookup?_append (name : String) (a b : List (String × Json)) :
    lookup? name (a ++ b) = (lookup? name a).or (lookup? name b) := by
  induction a with
  | nil => simp
  | cons f r ih =>
      obtain ⟨key, value⟩ := f
      by_cases h : key = name <;> simp [h, ih]

/-- The fields of a record: those of an object, or an array's values paired with the names of
the record's fields in their order, when there are no more values than names. -/
def record? (names : List String) : Json → Option (List (String × Json))
  | .obj fields => some fields
  | .arr items => if items.length ≤ names.length then some (names.zip items) else none
  | _ => none

/-- The text of a string. -/
def str? : Json → Option String
  | .str s => some s
  | _ => none

/-- The value of a number without sign, fraction or exponent. -/
def nat? : Json → Option Nat
  | .nat n => some n
  | _ => none

/-- The value of a truth value. -/
def bool? : Json → Option Bool
  | .bool b => some b
  | _ => none

/-- The name of a case without contents: a string, or an object whose one field is null. -/
def caseName? : Json → Option String
  | .str s => some s
  | .obj [(s, .null)] => some s
  | _ => none

/-- The name that a JSON value gives, or the one whose place in a list it gives. -/
def listedName? (names : List String) : Json → Option String
  | .str s => some s
  | .nat n => names[n]?
  | _ => none

/-- Decode every value of an array. -/
def list? {α : Type} (decode : Json → Option α) : Json → Option (List α)
  | .arr items => items.mapM decode
  | _ => none

/-- A field that must be there. -/
def required? {α : Type} (decode : Json → Option α) (fields : List (String × Json))
    (name : String) : Option α :=
  (lookup? name fields).bind decode

/-- A field that stands for a given value when it is missing. -/
def withDefault? {α : Type} (decode : Json → Option α) (fields : List (String × Json))
    (name : String) (default : α) : Option α :=
  match lookup? name fields with
  | none => some default
  | some value => decode value

/-- A field that may be missing or null. -/
def optional? {α : Type} (decode : Json → Option α) (fields : List (String × Json))
    (name : String) : Option (Option α) :=
  match lookup? name fields with
  | none | some .null => some none
  | some value => (decode value).map some

/-- The field for a value that may be absent: nothing is written when it is. -/
def optionalField {α : Type} (name : String) (encode : α → Json) :
    Option α → List (String × Json)
  | none => []
  | some value => [(name, encode value)]

/-- The field for a list: nothing is written when the list is empty. -/
def nonemptyField {α : Type} (name : String) (encode : α → Json) :
    List α → List (String × Json)
  | [] => []
  | values => [(name, .arr (values.map encode))]

end Json

end MarkupRepair
