import CallGuard.Report.Json
import CallGuard.Run.Basic

/-! What the command answers: what it prints, and the status with which it ends. -/
namespace CallGuard

/-- Printed text, status, and the files as they are afterwards. -/
structure Response where
  status : Nat
  output : String
  errors : String
  workspace : Workspace

namespace Response

def versionText : String := "guardlint 0.1.0\n"

def usageText : String :=
  "Usage: guardlint [OPTIONS] [PATH]... [COMMAND]\n\n" ++
  "Commands:\n" ++
  "  rules  List the active rules after applying the configuration\n" ++
  "  help   Print this message\n\n" ++
  "Options:\n" ++
  "  -c, --config <CONFIG>  Path to guardlint.json\n" ++
  "      --fix              Apply the suggested fixes, then report what is left\n" ++
  "      --format <FORMAT>  Output format: text or json\n" ++
  "      --pretty <PRETTY>  Colorize text output: true or false\n" ++
  "  -h, --help             Print help\n" ++
  "  -V, --version          Print version\n"

def argumentMessage : ArgumentFault → String
  | .unknownArgument => "unexpected argument"
  | .invalidValue => "missing or invalid value"
  | .conflict => "argument used more than once"
  | .tooManyValues => "unexpected value"
  | .unknownSubcommand => "unrecognized subcommand"
  | .help => usageText
  | .version => versionText

/-- Help and the version are what was asked for; everything else is a misuse. -/
def refuse (w : Workspace) : ArgumentFault → Response
  | .help => ⟨0, usageText, "", w⟩
  | .version => ⟨0, versionText, "", w⟩
  | fault => ⟨2, "", "error: " ++ argumentMessage fault ++ "\n", w⟩

def fail (w : Workspace) (fault : RunFault) : Response :=
  ⟨1, "", "Error: " ++ fault.message ++ "\n", w⟩

/-- A rule in one line. -/
def ruleLine (r : Rule) : String :=
  String.ofList (Report.padRight 28 r.id.toList ++ ' ' ::
    (Report.padRight 8 r.category.name.toList ++ ' ' :: (r.description.toList ++ ['\n'])))

def rulesText (format : OutputFormat) (rules : List Rule) : String :=
  match format with
  | .text => String.join (rules.map ruleLine)
  | .json => (Rule.listToJson rules).pretty ++ "\n"

def listRules (w : Workspace) (a : Arguments) : Response :=
  match (do (← Run.config w a.config?).activeRules) with
  | .error fault => fail w fault
  | .ok rules => ⟨0, rulesText a.format rules, "", w⟩

/-- How many fixes were made and how many problems there are, if any. -/
def summary (reports : List FileReport) : String :=
  let fixed := RunResult.fixesApplied reports
  let count := (RunResult.diagnostics reports).length
  let files := (reports.filter fun r => !r.findings.isEmpty).length
  (if fixed == 0 then "" else "Applied " ++ toString fixed ++ " fix(es).\n") ++
    if count == 0 then ""
    else "Found " ++ toString count ++ " problem(s) in " ++ toString files ++ " file(s).\n"

/-- Runs and reports. Colors are used when they can be shown, unless they are not wanted. -/
def lintAndReport (canColor : Bool) (w : Workspace) (a : Arguments) : Response :=
  let result := Run.lintAll w a
  match result.reports with
  | .error fault => fail result.workspace fault
  | .ok reports =>
    let sources := Sources.ofList (reports.map fun r => (r.file, r.source))
    let diagnostics := RunResult.diagnostics reports
    let status := if RunResult.hasErrors reports then 1 else 0
    match a.format with
    | .text =>
      let colors := canColor && a.pretty?.getD true
      ⟨status, Report.text colors sources diagnostics, summary reports, result.workspace⟩
    | .json =>
      let fixes := reports.flatMap fun r => r.findings.map (·.fix?)
      ⟨status, Report.json sources diagnostics fixes ++ "\n", "", result.workspace⟩

/-- The answer to a command. -/
def toWords (canColor : Bool) (w : Workspace) (words : List String) : Response :=
  match Arguments.ofWords words with
  | .error fault => refuse w fault
  | .ok a => if a.listsRules then listRules w a else lintAndReport canColor w a

end Response

end CallGuard
