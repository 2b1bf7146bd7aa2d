import MarkupRepair.CommandLine.Command
import MarkupRepair.Issue.Explanation
import MarkupRepair.Json.Pretty
import MarkupRepair.Report.Artifacts
import MarkupRepair.Run.Documents

/-!
# Carrying out commands

A command is a script that ends with an exit code and what is printed. The exit code is zero
when all is well, one when a document needs attention, and two when the program could not do
its work; in the last case nothing is printed but a diagnosis.
-/

namespace MarkupRepair

/-- The name of the program. -/
def programName : String := "xhtmlfix"

/-- The version of the program. -/
def programVersion : String := "0.1.0"

/-- The program as reports name it. -/
def programInfo : ToolInfo := ⟨programName, some programVersion⟩

/-- How a command ended. -/
structure CommandResult where
  /-- The exit code. -/
  exitCode : Nat
  /-- What is printed. -/
  output : String
  /-- What went wrong. -/
  diagnosis : Option String := none
  deriving DecidableEq, Repr

namespace CommandResult

/-- A command that did its work. -/
def success (output : String) : CommandResult := { exitCode := 0, output }

/-- A command that could not do its work. -/
def failure (diagnosis : String) : CommandResult :=
  { exitCode := 2, output := "", diagnosis := some diagnosis }

end CommandResult

/-- The configuration file at a root; one that is missing sets nothing. -/
def loadConfig (root : Path) : Script (Except Failure ConfigFile) := do
  let path := Path.join root configFileName
  if ← Script.request (.isPresent path) then
    match ← Script.request (.read path) with
    | .error why => return .error (why.inContext s!"read config file {path}")
    | .ok bytes =>
        match Text.decode? bytes with
        | none =>
            return .error
              ⟨s!"read config file {path}", ["stream did not contain valid UTF-8"]⟩
        | some text =>
            match ConfigFile.parse? (String.ofList text) with
            | none =>
                return .error ⟨s!"parse config file {path}", [ConfigFile.invalidMessage]⟩
            | some config => return .ok config
  else return .ok {}

namespace RunReport

/-- What is printed about a report that has been written to a directory. -/
def summaryText (r : RunReport) (outDir : Path) : String :=
  let reportPath := Path.join outDir "report.json"
  let patchPath := Path.join outDir "patch.diff"
  r.console ++ s!"report: {reportPath}\n" ++
    if r.run.dryRun then s!"patch:  {patchPath}\n" else ""

end RunReport

/-- Make a run over the documents below its root and write its report. -/
def executeRun (settings : RunSettings) : Script CommandResult := do
  let source := DocumentSource.search settings.root settings.includes settings.excludes
  let outcome ← run settings source programInfo false
  match outcome.report with
  | .error why => return { CommandResult.failure why.message with exitCode := why.exitCode }
  | .ok report =>
      let outDir := settings.resolvedOutDir
      match ← report.writeArtifacts report.patch outDir settings.maxIssuesPerFile with
      | .error why =>
          return .failure (why.inContext s!"write artifacts to {outDir}").full
      | .ok () =>
          return { exitCode := report.exitCode, output := report.summaryText outDir }

/-- Make the run that a configuration file and a command line set up. -/
def executeConfigured (root : Path) (settings : ConfigFile → RunSettings) :
    Script CommandResult := do
  match ← loadConfig root with
  | .error why => return .failure why.full
  | .ok config => executeRun (settings config)

/-- A text filled up with blanks to a width. -/
def padRight (width : Nat) (s : String) : String :=
  s ++ String.ofList (List.replicate (width - s.length) ' ')

/-- A line of eighty equal characters. -/
def rule (c : Char) : String := String.ofList (List.replicate 80 c) ++ "\n"

namespace CheckExplanation

/-- A titled part of an explanation. -/
def sectionText (title body : String) : String := s!"{title}\n" ++ rule '-' ++ s!"{body}\n\n"

/-- An explanation for a terminal. -/
def console (e : CheckExplanation) : String :=
  let severity := e.severity.name
  let note := match e.severityNote with
    | some note => s!" ({note})"
    | none => ""
  let repair := if e.fixable then "automatic" else "manual"
  rule '=' ++ s!"CHECK: {e.title}\n" ++ rule '=' ++ "\n" ++
    s!"Code:      {e.code}\nSeverity:  {severity}{note}\nRepair:    {repair}\n\n" ++
    sectionText "DESCRIPTION" e.description ++
    sectionText s!"SEVERITY: {severity.map Char.toUpper}" e.severity.meaning ++
    sectionText "AUTOMATIC REPAIR" e.repair ++
    sectionText "REMEDIATION GUIDANCE" e.remediation

/-- A line in the list of checks. -/
def listLine (code severity title : String) : String :=
  s!"  {padRight 24 code} {padRight 10 severity} {title}\n"

/-- The list of checks for a terminal. -/
def listText : String :=
  "Available checks:\n\n" ++ listLine "CODE" "SEVERITY" "TITLE" ++
    listLine "----" "--------" "-----" ++
    String.join (all.map fun e => listLine e.code e.severity.name e.title) ++
    "\nUse 'xhtmlfix explain <code>' for details.\n"

/-- The list of checks as JSON. -/
def listJson : Json :=
  .arr (all.map fun e => .obj [("code", .str e.code), ("fixable", .bool e.fixable),
    ("severity", .str e.severity.name), ("title", .str e.title)])

end CheckExplanation

/-- Explain the check that a query names. -/
def executeExplain (query : String) : CommandResult :=
  match CheckExplanation.lookup? query with
  | some explanation => .success explanation.console
  | none =>
      let available := ", ".intercalate IssueKind.allCodes
      .failure s!"Unknown check: '{query}'\n\nAvailable checks: {available}"

/-- How the program is used. -/
def usageText : String :=
  "Structural validation and repair for XHTML document trees.\n\n" ++
  "Usage: xhtmlfix <COMMAND>\n\n" ++
  "Commands:\n" ++
  "  check        Scan documents and report structural issues. Never writes documents\n" ++
  "  fix          Scan documents and repair what can be repaired safely\n" ++
  "  explain      Explain what a check detects and how it is repaired\n" ++
  "  list-checks  List all checks\n"

namespace Command

/-- Carry out a command. -/
def execute : Command → Script CommandResult
  | .check root given => executeConfigured root (·.checkSettings root given)
  | .fix root given repair => executeConfigured root (·.repairSettings root given repair)
  | .explain code => return executeExplain code
  | .listChecks .text => return .success CheckExplanation.listText
  | .listChecks .json => return .success (CheckExplanation.listJson.pretty ++ "\n")
  | .help => return .success usageText
  | .version => return .success s!"{programName} {programVersion}\n"

end Command

/-- Carry out what a command line says. -/
def executeLine (arguments : List String) : Script CommandResult :=
  match Command.parse arguments with
  | .ok command => command.execute
  | .error why => return .failure why.message

end MarkupRepair
