import MarkupRepair.Path.Basic
import MarkupRepair.Toml.Document

/-!
# Configuration files

A configuration file may stand at the root of the documents. All that it sets is optional, and
what it holds beyond that is ignored, but a setting of a wrong type makes the whole file
invalid.
-/

namespace MarkupRepair

/-- The name of the configuration file. -/
def configFileName : String := "xhtmlfix.toml"

/-- What a configuration file sets. -/
structure ConfigFile where
  /-- Patterns of documents. -/
  includes : List String := []
  /-- Patterns of documents to leave out. -/
  excludes : List String := []
  /-- Patterns of codes that may be repaired. -/
  allow : List String := []
  /-- Patterns of codes that may not be repaired. -/
  deny : List String := []
  /-- Upper bound on passes. -/
  maxPasses : Option Nat := none
  /-- The suffix of backups. -/
  backupSuffix : Option String := none
  /-- The directory of backups. -/
  backupDir : Option Path := none
  /-- How many documents may be worked on at once. -/
  jobs : Option Nat := none
  /-- Whether to stop at the first document that goes wrong. -/
  failFast : Bool := false
  /-- The directory of the report. -/
  outDir : Option Path := none
  /-- Upper bound on the issues listed for one document. -/
  maxIssuesPerFile : Option Nat := none
  deriving DecidableEq, Repr

namespace Toml

/-- The text of a string. -/
def string? : Toml → Option String
  | .string s => some s
  | _ => none

/-- A truth value. -/
def boolean? : Toml → Option Bool
  | .boolean b => some b
  | _ => none

/-- An integer from zero up to, not including, `bound`. -/
def natBelow? (bound : Nat) : Toml → Option Nat
  | .integer i => if 0 ≤ i && i < bound then some i.toNat else none
  | _ => none

/-- A list of strings. -/
def strings? : Toml → Option (List String)
  | .array _ items => items.mapM string?
  | _ => none

/-- The settings of a section: a table, or an array with the values of the named settings in
their order. A date or a time counts as a table without any of them. -/
def section? (names : List String) : Toml → Option TomlEntries
  | .table _ entries => some entries
  | .array _ items => some (names.zip items)
  | .dateTime _ => some []
  | _ => none

end Toml

namespace TomlEntries

/-- A section, empty when it is missing. -/
def section? (entries : TomlEntries) (name : String) (settings : List String) :
    Option TomlEntries :=
  match entries.get? name with
  | none => some []
  | some value => value.section? settings

/-- A setting that may be missing. -/
def optional? {α : Type} (entries : TomlEntries) (name : String) (decode : Toml → Option α) :
    Option (Option α) :=
  match entries.get? name with
  | none => some none
  | some value => (decode value).map some

/-- A setting with a value for when it is missing. -/
def withDefault? {α : Type} (entries : TomlEntries) (name : String) (decode : Toml → Option α)
    (default : α) : Option α :=
  (entries.optional? name decode).map (·.getD default)

end TomlEntries

namespace ConfigFile

/-- One more than the greatest number of passes. -/
def passBound : Nat := 1 <<< 32

/-- One more than the greatest count. -/
def countBound : Nat := 1 <<< 64

/-- The settings in the entries of a document. -/
def ofEntries? (entries : TomlEntries) : Option ConfigFile := do
  let scan ← entries.section? "scan" ["include", "exclude"]
  let policy ← entries.section? "policy" ["allow", "deny", "max_passes"]
  let backups ← entries.section? "backups" ["suffix", "dir"]
  let run ← entries.section? "run" ["jobs", "fail_fast"]
  let report ← entries.section? "report" ["out_dir", "max_issues_per_file"]
  return {
    includes := ← scan.withDefault? "include" Toml.strings? []
    excludes := ← scan.withDefault? "exclude" Toml.strings? []
    allow := ← policy.withDefault? "allow" Toml.strings? []
    deny := ← policy.withDefault? "deny" Toml.strings? []
    maxPasses := ← policy.optional? "max_passes" (Toml.natBelow? passBound)
    backupSuffix := ← backups.optional? "suffix" Toml.string?
    backupDir := ← backups.optional? "dir" Toml.string?
    jobs := ← run.optional? "jobs" (Toml.natBelow? countBound)
    failFast := ← run.withDefault? "fail_fast" Toml.boolean? false
    outDir := ← report.optional? "out_dir" Toml.string?
    maxIssuesPerFile :=
      ← report.optional? "max_issues_per_file" (Toml.natBelow? countBound) }

/-- Read a configuration file. -/
def parse? (document : String) : Option ConfigFile :=
  (TomlDocument.parse? document).bind ofEntries?

/-- What is said about a configuration file that cannot be read. -/
def invalidMessage : String := "invalid TOML"

end ConfigFile

end MarkupRepair
