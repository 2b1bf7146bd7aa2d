import Mathlib.Data.List.Forall2
import MarkupRepair.Json.Text

/-!
# Reading JSON whose fields come in any order

The fields of a JSON object have no order of their own. Two values are alike when they differ at
most in the order in which objects list their fields. A decoder looks fields up by their names, so
it reads the same from values that are alike, provided that no object uses a name twice. The rules
for fields carry this from the parts of an object to the whole.
-/

namespace MarkupRepair

namespace Json

/-- Values that differ at most in the order in which objects list their fields. -/
inductive Alike : Json → Json → Prop where
  | null : Alike .null .null
  | bool (b : Bool) : Alike (.bool b) (.bool b)
  | nat (n : Nat) : Alike (.nat n) (.nat n)
  | numeral (literal : String) : Alike (.numeral literal) (.numeral literal)
  | str (s : String) : Alike (.str s) (.str s)
  | arr {items items' : List Json} (h : List.Forall₂ Alike items items') :
      Alike (.arr items) (.arr items')
  /-- The values are alike one by one, and then the fields are put in another order. -/
  | obj {fields fields' shuffled : List (String × Json)}
      (names : fields.map Prod.fst = fields'.map Prod.fst)
      (values : List.Forall₂ Alike (fields.map Prod.snd) (fields'.map Prod.snd))
      (perm : fields'.Perm shuffled) : Alike (.obj fields) (.obj shuffled)

mutual

theorem Alike.refl : (value : Json) → Alike value value
  | .null => .null
  | .bool b => .bool b
  | .nat n => .nat n
  | .numeral literal => .numeral literal
  | .str s => .str s
  | .arr items => .arr (Alike.refl_items items)
  | .obj fields => .obj rfl (Alike.refl_values fields) (List.Perm.refl fields)

theorem Alike.refl_items : (items : List Json) → List.Forall₂ Alike items items
  | [] => .nil
  | item :: rest => .cons (Alike.refl item) (Alike.refl_items rest)

theorem Alike.refl_values : (fields : List (String × Json)) →
    List.Forall₂ Alike (fields.map Prod.snd) (fields.map Prod.snd)
  | [] => .nil
  | field :: rest => .cons (Alike.refl field.2) (Alike.refl_values rest)

end

/-- Only null is alike to null. -/
theorem Alike.eq_null {value : Json} (h : Alike value .null) : value = .null := by
  cases h
  rfl

/-- The names that an object uses, in the order of its fields. -/
def names : Json → List String
  | .obj fields => fields.map Prod.fst
  | _ => []

section Lookup

variable {α : Type} {fields fields' : List (String × Json)}

@[simp] theorem lookup?_optionalField (name key : String) (encode : α → Json) (value : Option α) :
    lookup? name (optionalField key encode value) =
      if key = name then value.map encode else none := by
  cases value <;> simp [optionalField]

@[simp] theorem lookup?_nonemptyField (name key : String) (encode : α → Json) (values : List α) :
    lookup? name (nonemptyField key encode values) =
      if key = name then if values = [] then none else some (.arr (values.map encode))
      else none := by
  cases values <;> simp [nonemptyField]

/-- An optional field is written under its name or not at all. -/
theorem map_fst_optionalField_sublist (name : String) (encode : α → Json) (value : Option α) :
    ((optionalField name encode value).map Prod.fst).Sublist [name] := by
  cases value <;> simp [optionalField]

theorem map_fst_nonemptyField_sublist (name : String) (encode : α → Json) (values : List α) :
    ((nonemptyField name encode values).map Prod.fst).Sublist [name] := by
  cases values <;> simp [nonemptyField]

/-- A name that no field has is not found. -/
theorem lookup?_eq_none_of_not_mem {name : String} (h : name ∉ fields.map Prod.fst) :
    lookup? name fields = none := by
  induction fields with
  | nil => rfl
  | cons field rest ih =>
      obtain ⟨key, value⟩ := field
      rw [List.map_cons, List.mem_cons, not_or] at h
      rw [lookup?_cons, if_neg (Ne.symm h.1), ih h.2]

/-- In an object that uses no name twice, the order of the fields does not matter to a look-up. -/
theorem lookup?_eq_of_perm (hperm : fields.Perm fields') (hnodup : (fields.map Prod.fst).Nodup)
    (name : String) : lookup? name fields = lookup? name fields' := by
  induction hperm with
  | nil => rfl
  | cons field _ ih =>
      obtain ⟨key, value⟩ := field
      rw [List.map_cons, List.nodup_cons] at hnodup
      rw [lookup?_cons, lookup?_cons, ih hnodup.2]
  | swap first second rest =>
      obtain ⟨key, value⟩ := first
      obtain ⟨key', value'⟩ := second
      simp only [List.map_cons, List.nodup_cons, List.mem_cons, not_or] at hnodup
      simp only [lookup?_cons]
      split_ifs with h h'
      · exact absurd (h.trans h'.symm) hnodup.1.1
      all_goals rfl
  | trans h _ ih ih' => rw [ih hnodup, ih' ((h.map Prod.fst).nodup_iff.mp hnodup)]

/-- Objects whose values are alike one by one give values that are alike. -/
theorem lookup?_rel_of_values (hnames : fields.map Prod.fst = fields'.map Prod.fst)
    (hvalues : List.Forall₂ Alike (fields.map Prod.snd) (fields'.map Prod.snd)) (name : String) :
    Option.Rel Alike (lookup? name fields) (lookup? name fields') := by
  induction fields generalizing fields' with
  | nil =>
      obtain rfl : fields' = [] := List.map_eq_nil_iff.mp hnames.symm
      exact .none
  | cons field rest ih =>
      cases fields' with
      | nil => cases hnames
      | cons field' rest' =>
          obtain ⟨key, value⟩ := field
          obtain ⟨key', value'⟩ := field'
          obtain ⟨hkey, hrest⟩ := List.cons.inj hnames
          obtain rfl : key = key' := hkey
          obtain ⟨hvalue, hvalues⟩ := List.forall₂_cons.mp hvalues
          rw [lookup?_cons, lookup?_cons]
          split_ifs
          · exact .some hvalue
          · exact ih hrest hvalues

end Lookup

/-- Whether a decoder reads something from a value, and from every value that is alike. -/
def Reads {α : Type} (decode : Json → Option α) (value : Json) (a : α) : Prop :=
  ∀ value', Alike value value' → decode value' = some a

/-- Whether something is read back as it was from the JSON that it is written as, and is then
written the same again. -/
structure RoundTrips {α : Type} (encode : α → Json) (decode : Json → Option α) (a : α) : Prop where
  /-- What has been written is read back. -/
  read : decode (encode a) = some a
  /-- What has been read is written as it was. -/
  rewritten : (decode (encode a)).map encode = some (encode a)
  /-- It is read back from whatever is alike, too. -/
  alike : ∀ value, Alike (encode a) value → decode value = some a

theorem Reads.roundTrips {α : Type} {encode : α → Json} {decode : Json → Option α} {a : α}
    (h : Reads decode (encode a) a) : RoundTrips encode decode a where
  read := h _ (Alike.refl _)
  rewritten := by rw [h _ (Alike.refl _), Option.map_some]
  alike := h

section Values

variable {α : Type} {decode : Json → Option α}

theorem reads_str (s : String) : Reads str? (.str s) s := by
  rintro _ ⟨⟩
  rfl

theorem reads_nat (n : Nat) : Reads nat? (.nat n) n := by
  rintro _ ⟨⟩
  rfl

theorem reads_bool (b : Bool) : Reads bool? (.bool b) b := by
  rintro _ ⟨⟩
  rfl

theorem reads_text (t : Text) : Reads text? (ofText t) t := by
  rintro _ ⟨⟩
  exact text?_ofText t

/-- The name of a case is read by whatever reads names. -/
theorem reads_caseName {ofName? : String → Option α} {name : String} {a : α}
    (h : ofName? name = some a) :
    Reads (fun value => value.caseName?.bind ofName?) (.str name) a := by
  rintro _ ⟨⟩
  exact h

theorem reads_listedName (names : List String) (name : String) :
    Reads (listedName? names) (.str name) name := by
  rintro _ ⟨⟩
  rfl

/-- A list is read when each of its members is. -/
theorem reads_list {encode : α → Json} (h : ∀ a, Reads decode (encode a) a) (values : List α) :
    Reads (list? decode) (.arr (values.map encode)) values := by
  rintro _ (_ | _ | _ | _ | _ | hitems)
  unfold list?
  dsimp only
  generalize hwritten : values.map encode = items at hitems
  induction hitems generalizing values with
  | nil =>
      obtain rfl := List.map_eq_nil_iff.mp hwritten
      rfl
  | cons hitem _ ih =>
      cases values with
      | nil => cases hwritten
      | cons a rest =>
          obtain ⟨rfl, hrest⟩ := List.cons.inj hwritten
          simp [List.mapM_cons, h a _ hitem, ih rest hrest]

end Values

/-- Two lists of fields of which every look-up gives values that are alike. -/
def SameFields (fields fields' : List (String × Json)) : Prop :=
  ∀ name, Option.Rel Alike (lookup? name fields) (lookup? name fields')

/-- What is alike to an object that uses no name twice is an object with the same fields. -/
theorem Alike.exists_sameFields {fields : List (String × Json)} {value : Json}
    (h : Alike (.obj fields) value) (hnodup : (names (.obj fields)).Nodup) :
    ∃ fields', value = .obj fields' ∧ SameFields fields fields' := by
  cases h with
  | obj hnames hvalues hperm =>
      refine ⟨_, rfl, fun name => ?_⟩
      rw [names, hnames] at hnodup
      rw [← lookup?_eq_of_perm hperm hnodup name]
      exact lookup?_rel_of_values hnames hvalues name

namespace SameFields

variable {α : Type} {decode : Json → Option α} {encode : α → Json}
  {fields fields' : List (String × Json)}

/-- A field that is there gives what its value is read as. -/
theorem lookup?_bind (h : SameFields fields fields') {name : String} {value : Json} {a : α}
    (hget : lookup? name fields = some value) (hreads : Reads decode value a) :
    (lookup? name fields').bind decode = some a := by
  have hrel := h name
  rw [hget] at hrel
  cases hfield : lookup? name fields' with
  | none =>
      rw [hfield] at hrel
      cases hrel
  | some value' =>
      rw [hfield] at hrel
      cases hrel with
      | some halike => exact hreads value' halike

/-- A field that is missing is missing. -/
theorem lookup?_eq_none (h : SameFields fields fields') {name : String}
    (hget : lookup? name fields = none) : lookup? name fields' = none := by
  have hrel := h name
  rw [hget] at hrel
  cases hfield : lookup? name fields' with
  | none => rfl
  | some value' =>
      rw [hfield] at hrel
      cases hrel

theorem required? (h : SameFields fields fields') {name : String} {value : Json} {a : α}
    (hget : lookup? name fields = some value) (hreads : Reads decode value a) :
    Json.required? decode fields' name = some a :=
  h.lookup?_bind hget hreads

/-- A value that may be absent is read from the field that is written for it, as long as it is not
written as null. -/
theorem optional? (h : SameFields fields fields') {name : String} {value : Option α}
    (hget : lookup? name fields = value.map encode) (hreads : ∀ a, Reads decode (encode a) a)
    (hnull : ∀ a, encode a ≠ .null) : Json.optional? decode fields' name = some value := by
  have hrel := h name
  rw [hget] at hrel
  unfold Json.optional?
  cases value with
  | none =>
      rw [h.lookup?_eq_none hget]
  | some a =>
      cases hfield : lookup? name fields' with
      | none =>
          rw [hfield] at hrel
          cases hrel
      | some value' =>
          rw [hfield] at hrel
          have halike : Alike (encode a) value' := by
            cases hrel with
            | some halike => exact halike
          have hne : value' ≠ .null := by
            rintro rfl
            exact hnull a halike.eq_null
          simp [hreads a value' halike]

theorem withDefault? (h : SameFields fields fields') {name : String} {value : Json} {a : α}
    (hget : lookup? name fields = some value) (hreads : Reads decode value a) (default : α) :
    Json.withDefault? decode fields' name default = some a := by
  have hread := h.lookup?_bind hget hreads
  unfold Json.withDefault?
  cases hfield : lookup? name fields' with
  | none =>
      rw [hfield] at hread
      cases hread
  | some value' =>
      rw [hfield] at hread
      exact hread

/-- A list for which nothing is written when it is empty is read from what is written. -/
theorem nonempty? (h : SameFields fields fields') {name : String} {values : List α}
    (hget : lookup? name fields =
      if values = [] then none else some (.arr (values.map encode)))
    (hreads : ∀ a, Reads decode (encode a) a) :
    Json.withDefault? (list? decode) fields' name [] = some values := by
  split_ifs at hget with hempty
  · rw [Json.withDefault?, h.lookup?_eq_none hget, hempty]
  · exact h.withDefault? hget (reads_list hreads values) []

end SameFields

end Json

end MarkupRepair
