import CallGuard.Command.Respond

/-! The command. It reads the files that its arguments can be about, answers, and writes the files
that have changed. -/
namespace CallGuard.Command

/-- Folders inside one another more often than this are not entered. -/
def maxFolderDepth : Nat := 256

/-- Names from the top down as a path. -/
def pathOf (place : List String) : String := "/" ++ "/".intercalate place

/-- The files and folders at or below a place. Below it, skipped folders are left out. -/
def gather : (limit : Nat) → (place : List String) → IO (List FileEntry × List (List String))
  | 0, _ => return ([], [])
  | limit + 1, place => do
    let here := (← IO.currentDir) / pathOf place
    if ← here.isDir then
      let mut files := []
      let mut folders := [place]
      for entry in ← here.readDir do
        let below := place ++ [entry.fileName]
        if !((← entry.path.isDir) && Discover.isSkipped entry.fileName) then
          let (moreFiles, moreFolders) ← gather limit below
          files := files ++ moreFiles
          folders := folders ++ moreFolders
      return (files, folders)
    else if ← here.pathExists then
      let bytes ← IO.FS.readBinFile here
      return ([⟨place, (String.fromUTF8? bytes).map String.toList⟩], [])
    else return ([], [])

/-- The workspace as far as some paths need it. -/
def load (cwd : String) (paths : List String) : IO Workspace := do
  let mut w : Workspace := ⟨cwd, [], []⟩
  for path in paths do
    let places := w.waypoints path
    for place in places.dropLast do
      if ← ((← IO.currentDir) / pathOf place).isDir then
        w := { w with folders := place :: w.folders }
    let (files, folders) ← gather maxFolderDepth (places.getLast?.getD [])
    let files := files.filter fun f => (w.file? f.place).isNone
    w := { w with files := w.files ++ files, folders := w.folders ++ folders }
  return w

/-- The paths that a command is about. -/
def pathsOf (words : List String) : List String :=
  match Arguments.ofWords words with
  | .error _ => []
  | .ok a =>
    let config := a.config?.getD Config.fileName
    if a.listsRules then [config]
    else config :: (if a.paths.isEmpty then ["."] else a.paths)

/-- Writes the files whose texts have changed. -/
def save (before after : Workspace) : IO Unit := do
  for f in after.files do
    if before.file? f.place != some f then
      match f.text? with
      | some text => IO.FS.writeFile (pathOf f.place) (String.ofList text)
      | none => pure ()

def run (words : List String) : IO UInt32 := do
  let before ← load (← IO.currentDir).toString (pathsOf words)
  let r := Response.toWords (← (← IO.getStdout).isTty) before words
  save before r.workspace
  IO.print r.output
  IO.eprint r.errors
  return r.status.toUInt32

end CallGuard.Command

def main (words : List String) : IO UInt32 := CallGuard.Command.run words
