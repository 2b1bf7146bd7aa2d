import MarkupRepair.Toml.Value

/-!
# Tables of TOML

How key paths and headers add to a table. A key is set once. A header goes through any table
but one in braces, and through the last table of an array of tables. A dotted key adds only to
tables that dotted keys made; on its way there it also goes through tables that longer headers
implied and through arrays of tables.
-/

namespace MarkupRepair.TomlEntries

/-- Whether a header, or a dotted key, that goes through a table of some origin may do so.
`last` tells whether the dotted key adds to this very table. -/
def admits (dotted last : Bool) : TableOrigin → Bool
  | .dotted => true
  | .implied => !dotted || !last
  | .headed => !dotted
  | .closed => false

/-- Change the table that a path leads to; the tables missing on the way are made. -/
def update (dotted : Bool) (change : TomlEntries → Option TomlEntries) :
    List String → TomlEntries → Option TomlEntries
  | [], entries => change entries
  | key :: path, entries =>
      match entries.get? key with
      | none => do
          let inner ← update dotted change path []
          return entries.set key (.table (if dotted then .dotted else .implied) inner)
      | some (.table origin inner) =>
          if admits dotted path.isEmpty origin then do
            return entries.set key (.table origin (← update dotted change path inner))
          else none
      | some (.array true items) =>
          match items.reverse with
          | .table origin inner :: earlier =>
              if dotted && path.isEmpty then none
              else do
                let last := Toml.table origin (← update dotted change path inner)
                return entries.set key (.array true (last :: earlier).reverse)
          | _ => none
      | some _ => none

/-- Add a key that is not there yet. -/
def addNew (key : String) (value : Toml) (entries : TomlEntries) : Option TomlEntries :=
  match entries.get? key with
  | none => some (entries.set key value)
  | some _ => none

/-- Set the value at a dotted key. -/
def addAt (keys : List String) (value : Toml) (entries : TomlEntries) : Option TomlEntries := do
  let last ← keys.getLast?
  update true (addNew last value) keys.dropLast entries

/-- Open the table of a header: a new one, or one that longer headers have implied. -/
def openTable (key : String) (entries : TomlEntries) : Option TomlEntries :=
  match entries.get? key with
  | none => some (entries.set key (.table .headed []))
  | some (.table .implied inner) => some (entries.set key (.table .headed inner))
  | some _ => none

/-- Add a table to an array of tables, which may be new. -/
def extendArray (key : String) (entries : TomlEntries) : Option TomlEntries :=
  match entries.get? key with
  | none => some (entries.set key (.array true [.table .headed []]))
  | some (.array true items) =>
      some (entries.set key (.array true (items ++ [.table .headed []])))
  | some _ => none

/-- A table in braces with values at dotted keys. -/
def ofFields (fields : List (List String × Toml)) : Option TomlEntries :=
  fields.foldlM (fun entries field => addAt field.1 field.2 entries) []

end MarkupRepair.TomlEntries
