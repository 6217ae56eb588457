/-! The files that a run can see, and what the paths in a command mean. -/
namespace CallGuard

/-- One step of a path. Going up comes before every name. -/
inductive PathStep
  | up
  | name (s : String)
  deriving DecidableEq, Repr

namespace PathStep

def before : PathStep → PathStep → Bool
  | .up, .name _ => true
  | .name a, .name b => a < b
  | _, .up => false

/-- The place one step from another. Going up from the top leads nowhere else. -/
def go (place : List String) : PathStep → List String
  | .up => place.dropLast
  | .name s => place ++ [s]

end PathStep

namespace Path

/-- The steps of a path. Slashes that stand together count once, and `.` does not count. -/
def steps (path : String) : List PathStep :=
  ((path.splitOn "/").filter fun s => s != "" && s != ".").map fun s =>
    if s == ".." then .up else .name s

/-- The order of paths, step by step. -/
def before : List PathStep → List PathStep → Bool
  | [], [] => false
  | [], _ :: _ => true
  | _ :: _, [] => false
  | a :: as, b :: bs => a.before b || (a == b && before as bs)

/-- All places that steps lead through from one place, and the one that they lead to. -/
def waypoints : (place : List String) → List PathStep → List (List String)
  | place, [] => [place]
  | place, step :: rest => place :: waypoints (step.go place) rest

/-- A path inside a folder. A path that begins with a slash stands for itself. -/
def join (folder path : String) : String :=
  if path.startsWith "/" then path
  else if folder.endsWith "/" then folder ++ path
  else folder ++ "/" ++ path

/-- Whether a path can only be that of a folder. -/
def endsInFolder (path : String) : Bool := path.endsWith "/" || path.endsWith "/."

/-- A path without slashes and `.` steps at its beginning. -/
def trimStart : List Char → List Char
  | '/' :: cs => trimStart cs
  | '.' :: '/' :: cs => trimStart cs
  | ['.'] => []
  | cs => cs

/-- A path as seen from a folder that its text begins with, and else the path itself. -/
def seenFrom (folder path : String) : String :=
  if path.startsWith (folder ++ "/") then
    String.ofList (trimStart (path.toList.drop folder.length))
  else path

/-- What stands behind the last point of a name. A point at the beginning does not count. -/
def extension? (name : String) : Option String :=
  match (name.splitOn ".").reverse with
  | last :: before => if before == [] || before == [""] then none else some last
  | [] => none

end Path

/-- A file by the names on the way to it. Its text is missing if its bytes are none. -/
structure FileEntry where
  place : List String
  text? : Option (List Char)
  deriving DecidableEq, Repr

/-- What a path leads to. -/
inductive PathTarget
  | file (place : List String)
  | folder (place : List String)
  deriving DecidableEq, Repr

/-- Files, empty folders, and the path of the working folder. A folder with a file in it need not be
named. -/
structure Workspace where
  cwd : String
  files : List FileEntry
  folders : List (List String)
  deriving Repr

namespace Workspace

def file? (w : Workspace) (place : List String) : Option FileEntry :=
  w.files.find? (·.place == place)

def hasFolder (w : Workspace) (place : List String) : Bool :=
  place.isEmpty || w.folders.any (place.isPrefixOf ·) ||
    w.files.any fun f => f.place != place && place.isPrefixOf f.place

/-- Follows the steps of a path. Every step has to start from a folder. -/
def follow? (w : Workspace) : (place : List String) → List PathStep → Option (List String)
  | place, [] => some place
  | place, step :: rest => if w.hasFolder place then w.follow? (step.go place) rest else none

def target? (w : Workspace) (path : String) : Option PathTarget := do
  let place ← w.follow? [] (Path.steps path)
  if w.hasFolder place then some (.folder place)
  else if (w.file? place).isSome && !Path.endsInFolder path then some (.file place)
  else none

/-- All places on the way of a path, and the one where it ends. -/
def waypoints (w : Workspace) (path : String) : List (List String) :=
  Path.waypoints [] (Path.steps (Path.join w.cwd path))

/-- A working folder with nothing in it. -/
def empty (cwd : String) : Workspace := ⟨cwd, [], Path.waypoints [] (Path.steps cwd)⟩

/-- Makes the folder at a path, and those on the way there. -/
def makeFolder (w : Workspace) (path : String) : Workspace :=
  { w with folders := w.folders ++ w.waypoints path }

/-- Makes the file at a path, in the place of one that is there, and the folders on the way. -/
def makeFile (w : Workspace) (path : String) (text? : Option (List Char)) : Workspace :=
  let way := w.waypoints path
  let place := way.getLast?.getD []
  let others := w.files.filter (·.place != place)
  { w with files := others ++ [⟨place, text?⟩], folders := w.folders ++ way.dropLast }

/-- Puts a text into a file. -/
def write (w : Workspace) (place : List String) (text : List Char) : Workspace :=
  { w with files := w.files.map fun f => if f.place == place then ⟨place, some text⟩ else f }

end Workspace

end CallGuard
