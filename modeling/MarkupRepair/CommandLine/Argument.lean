/-!
# Arguments of a command line

A command takes options, each by its long name, and positional values. An option may take a
value, either in the same argument behind an equals sign or in the next argument; the next
argument must not look like an option. Behind a double hyphen everything is positional.
-/

namespace MarkupRepair

/-- How an option is given. -/
inductive OptionForm where
  /-- Without a value, at most once. -/
  | flag
  /-- With a value, at most once. -/
  | single
  /-- With a value, any number of times. -/
  | repeated
  deriving DecidableEq, Repr

/-- An option of a command. -/
structure OptionSpec where
  /-- The long name, without its hyphens. -/
  name : String
  /-- How it is given. -/
  form : OptionForm
  deriving DecidableEq, Repr

/-- What is wrong with a command line. -/
inductive UsageError where
  /-- There is no command. -/
  | missingCommand
  /-- There is no such command. -/
  | unknownCommand (name : String)
  /-- An argument is not understood. -/
  | unexpectedArgument (argument : String)
  /-- An option lacks its value. -/
  | missingValue (name : String)
  /-- An option takes no value. -/
  | unexpectedValue (name : String)
  /-- A value is not one that the option takes. -/
  | invalidValue (name value : String)
  /-- An option may be given only once. -/
  | repeatedOption (name : String)
  /-- A positional value is missing. -/
  | missingArgument (name : String)
  deriving DecidableEq, Repr

/-- The error in words. -/
def UsageError.message : UsageError → String
  | .missingCommand => "a command is required"
  | .unknownCommand name => s!"unrecognized subcommand '{name}'"
  | .unexpectedArgument argument => s!"unexpected argument '{argument}' found"
  | .missingValue name => s!"a value is required for '--{name}' but none was supplied"
  | .unexpectedValue name => s!"no value is expected for '--{name}'"
  | .invalidValue name value => s!"invalid value '{value}' for '--{name}'"
  | .repeatedOption name => s!"the argument '--{name}' cannot be used multiple times"
  | .missingArgument name => s!"the argument '{name}' was not provided"

/-- An argument that has been understood, or the error in its place. -/
inductive Argument where
  /-- A flag. -/
  | flag (name : String)
  /-- An option with its value. -/
  | option (name value : String)
  /-- A positional value. -/
  | positional (value : String)
  /-- The wish for help. -/
  | help
  /-- What is wrong here. -/
  | fault (error : UsageError)
  deriving DecidableEq, Repr

namespace Argument

/-- Whether an argument looks like an option rather than a value. A lone hyphen is a value. -/
def looksLikeOption (s : String) : Bool := s.toList.head? == some '-' && s != "-"

/-- A long option and what follows its equals sign, if it has one. -/
def longOption? (s : String) : Option (String × Option String) :=
  match s.toList with
  | '-' :: '-' :: body =>
      let name := body.takeWhile (· != '=')
      let value := match body.drop name.length with
        | [] => none
        | _ :: value => some (String.ofList value)
      some (String.ofList name, value)
  | _ => none

/-- The arguments of a command with the given options, up to the first fault or wish for
help. -/
def readAll (specs : List OptionSpec) : List String → List Argument
  | [] => []
  | s :: rest =>
      if s = "--" then rest.map .positional
      else if s = "--help" || s = "-h" then [.help]
      else
        match longOption? s with
        | none =>
            if looksLikeOption s then [.fault (.unexpectedArgument s)]
            else .positional s :: readAll specs rest
        | some (name, attached) =>
            match specs.find? (·.name == name), attached with
            | none, _ => [.fault (.unexpectedArgument s)]
            | some ⟨_, .flag⟩, none => .flag name :: readAll specs rest
            | some ⟨_, .flag⟩, some _ => [.fault (.unexpectedValue name)]
            | some _, some value => .option name value :: readAll specs rest
            | some _, none =>
                match rest with
                | [] => [.fault (.missingValue name)]
                | value :: rest =>
                    if looksLikeOption value then [.fault (.missingValue name)]
                    else .option name value :: readAll specs rest

/-- The name of the flag or option that an argument gives. -/
def name? : Argument → Option String
  | .flag name | .option name _ => some name
  | _ => none

/-- The option that an argument repeats although it may be given only once. -/
def repeated? (specs : List OptionSpec) (earlier : List Argument) (a : Argument) :
    Option String :=
  (a.name?).filter fun name =>
    earlier.any (·.name? == some name) && !specs.contains ⟨name, .repeated⟩

/-- The decimal number that digits spell. -/
def digitsValue? (ds : List Char) : Option Nat :=
  if !ds.isEmpty && ds.all Char.isDigit then
    some (ds.foldl (fun n c => 10 * n + (c.toNat - '0'.toNat)) 0)
  else none

/-- The number below a bound that a value spells, after an optional plus sign. -/
def count? (bound : Nat) (value : String) : Option Nat :=
  let digits := match value.toList with
    | '+' :: r => r
    | r => r
  (digitsValue? digits).filter (· < bound)

/-- The number below a bound that a value spells, after an optional sign; a minus sign is only
good for zero. -/
def signedCount? (bound : Nat) (value : String) : Option Nat :=
  match value.toList with
  | '-' :: r => (digitsValue? r).filter (· == 0)
  | _ => count? bound value

end Argument

end MarkupRepair
