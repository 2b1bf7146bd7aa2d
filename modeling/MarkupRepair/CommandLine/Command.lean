import MarkupRepair.CommandLine.Argument
import MarkupRepair.Config.Merge

/-!
# Commands

What the program can be told to do, and how a command line says it.
-/

namespace MarkupRepair

/-- The formats of the list of checks. -/
inductive ListFormat where
  | text
  | json
  deriving DecidableEq, Repr

/-- What the program can be told to do. -/
inductive Command where
  /-- Report the issues of documents. -/
  | check (root : Path) (given : RunOverrides)
  /-- Repair documents. -/
  | fix (root : Path) (given : RunOverrides) (repair : RepairOverrides)
  /-- Explain a check. -/
  | explain (code : String)
  /-- List the checks. -/
  | listChecks (format : ListFormat)
  /-- Show how the program is used. -/
  | help
  /-- Show the version of the program. -/
  | version
  deriving DecidableEq, Repr

namespace Command

/-- The options of every run. -/
def runOptions : List OptionSpec :=
  [⟨"root", .single⟩, ⟨"include", .repeated⟩, ⟨"exclude", .repeated⟩, ⟨"out-dir", .single⟩,
    ⟨"jobs", .single⟩, ⟨"max-issues-per-file", .single⟩]

/-- The options of a run that repairs. -/
def repairOptions : List OptionSpec :=
  runOptions ++ [⟨"dry-run", .flag⟩, ⟨"allow", .repeated⟩, ⟨"deny", .repeated⟩,
    ⟨"max-passes", .single⟩, ⟨"fail-fast", .flag⟩, ⟨"backup-suffix", .single⟩,
    ⟨"backup-dir", .single⟩]

/-- The options of a list of checks. -/
def listOptions : List OptionSpec := [⟨"format", .single⟩]

/-- The options of a run that a command line has given so far. -/
structure GivenOptions where
  /-- The root of the documents. -/
  root : Path := "."
  /-- What is set for any run. -/
  run : RunOverrides := {}
  /-- What is set for a run that repairs. -/
  repair : RepairOverrides := {}
  deriving DecidableEq, Repr

namespace GivenOptions

/-- A count that an option sets. -/
def count (read : String → Option Nat) (name value : String) : Except UsageError (Option Nat) :=
  match read value with
  | some n => .ok (some n)
  | none => .error (.invalidValue name value)

/-- The options with one more that has a value. -/
def withValue (g : GivenOptions) (name value : String) : Except UsageError GivenOptions :=
  match name with
  | "root" => .ok { g with root := value }
  | "include" => .ok { g with run.includes := g.run.includes ++ [value] }
  | "exclude" => .ok { g with run.excludes := g.run.excludes ++ [value] }
  | "out-dir" => .ok { g with run.outDir := some value }
  | "jobs" => do
      return { g with run.jobs := ← count (Argument.count? ConfigFile.countBound) name value }
  | "max-issues-per-file" => do
      return { g with
        run.maxIssuesPerFile := ← count (Argument.count? ConfigFile.countBound) name value }
  | "allow" => .ok { g with repair.allow := g.repair.allow ++ [value] }
  | "deny" => .ok { g with repair.deny := g.repair.deny ++ [value] }
  | "max-passes" => do
      return { g with
        repair.maxPasses := ← count (Argument.signedCount? ConfigFile.passBound) name value }
  | "backup-suffix" => .ok { g with repair.backupSuffix := some value }
  | "backup-dir" => .ok { g with repair.backupDir := some value }
  | _ => .error (.unexpectedArgument name)

/-- The options with one more flag. -/
def withFlag (g : GivenOptions) (name : String) : Except UsageError GivenOptions :=
  match name with
  | "dry-run" => .ok { g with repair.dryRun := true }
  | "fail-fast" => .ok { g with repair.failFast := true }
  | _ => .error (.unexpectedArgument name)

end GivenOptions

/-- Take arguments into account one after another. `add` takes one, given those before it; the
wish for help ends the line. -/
def foldArguments {α : Type} (specs : List OptionSpec)
    (add : α → Argument → Except UsageError α) (finish : α → Except UsageError Command)
    (state : α) (earlier : List Argument) : List Argument → Except UsageError Command
  | [] => finish state
  | .help :: _ => .ok .help
  | .fault why :: _ => .error why
  | a :: rest =>
      match a.repeated? specs earlier with
      | some name => .error (.repeatedOption name)
      | none => do foldArguments specs add finish (← add state a) (a :: earlier) rest

/-- Take an option of a run into account. -/
def addRunOption (g : GivenOptions) : Argument → Except UsageError GivenOptions
  | .flag name => g.withFlag name
  | .option name value => g.withValue name value
  | .positional value => .error (.unexpectedArgument value)
  | _ => .ok g

/-- The command that the arguments of a run give. -/
def parseRun (specs : List OptionSpec) (command : GivenOptions → Command)
    (arguments : List String) : Except UsageError Command :=
  foldArguments specs addRunOption (fun g => .ok (command g)) {} []
    (Argument.readAll specs arguments)

/-- The command that the arguments of an explanation give. -/
def parseExplain (arguments : List String) : Except UsageError Command :=
  let add (code : Option String) : Argument → Except UsageError (Option String)
    | .positional value => if code.isSome then .error (.unexpectedArgument value) else .ok value
    | _ => .ok code
  let finish : Option String → Except UsageError Command
    | some code => .ok (.explain code)
    | none => .error (.missingArgument "<CODE>")
  foldArguments [] add finish none [] (Argument.readAll [] arguments)

/-- The command that the arguments of a list give. -/
def parseList (arguments : List String) : Except UsageError Command :=
  let add (format : ListFormat) : Argument → Except UsageError ListFormat
    | .option _ "text" => .ok .text
    | .option _ "json" => .ok .json
    | .option name value => .error (.invalidValue name value)
    | .positional value => .error (.unexpectedArgument value)
    | _ => .ok format
  foldArguments listOptions add (fun format => .ok (.listChecks format)) .text []
    (Argument.readAll listOptions arguments)

/-- The names of the commands. -/
def names : List String := ["check", "fix", "explain", "list-checks", "help"]

/-- The command that a command line gives. -/
def parse : List String → Except UsageError Command
  | [] => .error .missingCommand
  | "check" :: rest => parseRun runOptions (fun g => .check g.root g.run) rest
  | "fix" :: rest => parseRun repairOptions (fun g => .fix g.root g.run g.repair) rest
  | "explain" :: rest => parseExplain rest
  | "list-checks" :: rest => parseList rest
  | ["help"] => .ok .help
  | "help" :: name :: rest =>
      if names.contains name && rest.isEmpty then .ok .help else .error (.unknownCommand name)
  | name :: _ =>
      if name = "--help" || name = "-h" then .ok .help
      else if name = "--version" || name = "-V" then .ok .version
      else if Argument.looksLikeOption name then .error (.unexpectedArgument name)
      else .error (.unknownCommand name)

end Command

end MarkupRepair
