/-!
# TOML values

The values of a TOML document. A table remembers how it came to be, because that decides what
may still be added to it.
-/

namespace MarkupRepair

/-- How a table came to be. -/
inductive TableOrigin where
  /-- By a longer header. -/
  | implied
  /-- By a dotted key. -/
  | dotted
  /-- By a header of its own. -/
  | headed
  /-- In braces; nothing can be added to it. -/
  | closed
  deriving DecidableEq, Repr

/-- A TOML value. -/
inductive Toml where
  | string (s : String)
  | integer (i : Int)
  /-- A number with a fraction or an exponent, an infinity or a NaN, as it is written. -/
  | float (literal : String)
  | boolean (b : Bool)
  /-- A date, a time or both, as it is written. -/
  | dateTime (literal : String)
  /-- An array; one made of headers can be extended by further headers. -/
  | array (extendable : Bool) (items : List Toml)
  | table (origin : TableOrigin) (entries : List (String × Toml))
  deriving Repr

/-- The entries of a table in their order. -/
abbrev TomlEntries := List (String × Toml)

namespace TomlEntries

/-- The value of a key. -/
def get? (entries : TomlEntries) (key : String) : Option Toml := entries.lookup key

/-- The entries with the value of a key exchanged, or added at the end. -/
def set (entries : TomlEntries) (key : String) (value : Toml) : TomlEntries :=
  match entries with
  | [] => [(key, value)]
  | (k, v) :: rest => if k = key then (k, value) :: rest else (k, v) :: set rest key value

/-- Reading back the value of a key that has been set. -/
theorem get?_set (entries : TomlEntries) (key : String) (value : Toml) :
    (entries.set key value).get? key = some value := by
  induction entries with
  | nil => simp [set, get?]
  | cons entry rest ih =>
      obtain ⟨k, v⟩ := entry
      by_cases h : k = key
      · simp [set, get?, h]
      · have hne : (key == k) = false := by simpa using Ne.symm h
        simpa [set, get?, h, List.lookup_cons, hne] using ih

end TomlEntries

end MarkupRepair
