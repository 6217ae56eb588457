import CallGuard.Fix.Edit
import CallGuard.Json.Write
import CallGuard.Report.Text

/-! Reports to be read by programs. -/
namespace CallGuard.Report

def editJson (e : TextEdit) : Json :=
  .record [("start", .ofNat e.start), ("length", .ofNat e.length), ("newText", .string e.newText)]

def fixJson (f : Fix) : Json :=
  .record [("ruleId", .string f.ruleId), ("description", .string f.description),
    ("edits", .list (f.edits.map editJson))]

/-- A diagnostic with its line and column, which are zero if the file is not known, and the fix
that there is for it. -/
def entryJson (s : Sources) (d : Diagnostic) (fix? : Option Fix) : Json :=
  let (line, column) := (s.position? d.file d.start).getD (0, 0)
  .record <|
    [("file", .string d.file), ("start", .ofNat d.start), ("length", .ofNat d.length),
      ("ruleId", .string d.ruleId), ("messageText", .string d.message)] ++
    (d.correction?.map fun c => ("correction", Json.string c)).toList ++
    [("category", .string d.category.name), ("line", .ofNat line), ("column", .ofNat column)] ++
    (fix?.map fun f => ("fix", fixJson f)).toList

/-- All diagnostics, each with the fix at its place in the second list. -/
def entriesJson (s : Sources) : List Diagnostic → List (Option Fix) → List Json
  | [], _ => []
  | d :: ds, fixes => entryJson s d fixes.head?.join :: entriesJson s ds fixes.tail

def json (s : Sources) (ds : List Diagnostic) (fixes : List (Option Fix)) : String :=
  (Json.list (entriesJson s ds fixes)).pretty

end CallGuard.Report
