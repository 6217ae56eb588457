import CallGuard.Glob.Filter
import CallGuard.Run.Fault
import CallGuard.Run.Workspace

/-! The files that a run looks at. A file that is named is looked at in any case; in a folder only
files with the right extension count, if the filter accepts them and no hidden folder is on the
way. -/
namespace CallGuard

/-- A file with the path by which it was found. -/
structure FoundFile where
  path : String
  place : List String
  deriving DecidableEq, Repr

namespace Discover

def extensions : List String := ["ts", "tsx", "js", "jsx", "mts", "cts"]

def hasExtension (name : String) : Bool := (Path.extension? name).any extensions.contains

/-- Folders that are not entered. -/
def isSkipped (folder : String) : Bool := folder.startsWith "." || folder == "node_modules"

/-- The file below a folder, if it counts there. -/
def foundIn? (cwd : String) (filter : FileFilter) (root : String) (folder : List String)
    (f : FileEntry) : Option FoundFile := do
  let below := if folder.isPrefixOf f.place then f.place.drop folder.length else []
  let name ← below.getLast?
  let path := Path.join root ("/".intercalate below)
  if hasExtension name && !(below.dropLast.any isSkipped) &&
      filter.accepts (Path.seenFrom cwd path) then
    some ⟨path, f.place⟩
  else none

/-- The files at or below a path. -/
def below (w : Workspace) (filter : FileFilter) (path : String) :
    Except RunFault (List FoundFile) :=
  match w.target? path with
  | some (.file place) => .ok [⟨path, place⟩]
  | some (.folder place) => .ok (w.files.filterMap (foundIn? w.cwd filter path place))
  | none => .error (.noSuchPath path)

/-- Of neighbours with the same path only the first stays. -/
def dropRepeated : List FoundFile → List FoundFile
  | [] => []
  | f :: fs =>
    match dropRepeated fs with
    | [] => [f]
    | g :: gs => if Path.steps f.path == Path.steps g.path then f :: gs else f :: g :: gs

/-- The files at or below the given paths, or in the working folder when there are none, in the
order of their paths. -/
def files (w : Workspace) (paths : List String) (filter : FileFilter) :
    Except RunFault (List FoundFile) := do
  let roots := if paths.isEmpty then [w.cwd] else paths.map (Path.join w.cwd)
  let found ← roots.mapM (below w filter)
  return dropRepeated (found.flatten.mergeSort fun a b =>
    !Path.before (Path.steps b.path) (Path.steps a.path))

end Discover

end CallGuard
