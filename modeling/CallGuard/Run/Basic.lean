import CallGuard.Command.Arguments
import CallGuard.Config
import CallGuard.Lint
import CallGuard.Run.Discover

/-! A run over files: configuration, search for files, analysis and fixes. -/
namespace CallGuard

/-- What was found in a file, after fixes if some were made. -/
structure FileReport where
  /-- The path to show. -/
  file : String
  source : List Char
  findings : List Finding
  fixesApplied : Nat
  deriving Repr

/-- The files after a run, and its reports or what kept it from being done. -/
structure RunResult where
  workspace : Workspace
  reports : Except RunFault (List FileReport)

namespace Run

/-- The configuration file: the one that is named, or else the usual one if there is one. -/
def configPath? (w : Workspace) (named? : Option String) : Except RunFault (Option String) :=
  match named? with
  | none =>
    let path := Path.join w.cwd Config.fileName
    .ok (if w.target? path matches some (.file _) then some path else none)
  | some named =>
    let path := Path.join w.cwd named
    if w.target? path matches some (.file _) then .ok (some path) else .error (.noConfig path)

def readText (w : Workspace) (path : String) (place : List String) :
    Except RunFault (List Char) :=
  match (w.file? place).bind (·.text?) with
  | some text => .ok text
  | none => .error (.unreadable path)

/-- The text at a path. -/
def textAt (w : Workspace) (path : String) : Except RunFault (List Char) :=
  match w.target? path with
  | some (.file place) => readText w path place
  | _ => .error (.unreadable path)

def config (w : Workspace) (named? : Option String) : Except RunFault Config := do
  match ← configPath? w named? with
  | none => return .default
  | some path =>
    (Json.decodeText Config.ofJson (← textAt w path)).mapError (.invalidConfigFile path)

/-- The path of a file as it is shown, with slashes only. -/
def shownPath (w : Workspace) (path : String) : String :=
  (Path.seenFrom w.cwd path).map fun c => if c == '\\' then '/' else c

def lintText (file : String) (text : List Char) (rules : List Rule) :
    Except RunFault (List Finding) :=
  (lint file text rules).mapError .brokenDown

/-- Looks at one file. When fixes are wanted and some can be made, the file is written and looked
at once more. -/
def lintFile (rules : List Rule) (fix : Bool) (w : Workspace) (f : FoundFile) :
    Except RunFault (FileReport × Workspace) := do
  let file := shownPath w f.path
  let source ← readText w f.path f.place
  let findings ← lintText file source rules
  let plain := (⟨file, source, findings, 0⟩, w)
  if !fix then return plain
  let done ← (Fix.applyAll source (findings.filterMap (·.fix?))).mapError .brokenDown
  if done.applied == 0 then return plain
  let left ← lintText file done.text rules
  return (⟨file, done.text, left, done.applied⟩, w.write f.place done.text)

/-- Looks at files one after the other, up to the first that cannot be read. -/
def lintFiles (rules : List Rule) (fix : Bool) (w : Workspace) : List FoundFile → RunResult
  | [] => ⟨w, .ok []⟩
  | f :: fs =>
    match lintFile rules fix w f with
    | .error fault => ⟨w, .error fault⟩
    | .ok (report, w) =>
      let rest := lintFiles rules fix w fs
      { rest with reports := rest.reports.map (report :: ·) }

/-- The rules and files of a run. -/
def plan (w : Workspace) (a : Arguments) : Except RunFault (List Rule × List FoundFile) := do
  let c ← config w a.config?
  let rules ← c.activeRules
  let filter ← c.filter
  let files ← Discover.files w a.paths filter
  return (rules, files)

/-- Looks at all files that the arguments select. Reports are in the order of the shown paths. -/
def lintAll (w : Workspace) (a : Arguments) : RunResult :=
  match plan w a with
  | .error fault => ⟨w, .error fault⟩
  | .ok (rules, files) =>
    let result := lintFiles rules a.fix w files
    let inOrder (x y : FileReport) : Bool := !decide (y.file < x.file)
    { result with reports := result.reports.map (·.mergeSort inOrder) }

end Run

namespace RunResult

def diagnostics (reports : List FileReport) : List Diagnostic :=
  reports.flatMap fun r => r.findings.map (·.diagnostic)

def hasErrors (reports : List FileReport) : Bool :=
  (diagnostics reports).any (·.category == .error)

def fixesApplied (reports : List FileReport) : Nat := reports.foldl (fun n r => n + r.fixesApplied) 0

end RunResult

end CallGuard
