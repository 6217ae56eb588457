import CallGuard.Glob.Match
import CallGuard.Glob.Nesting
import CallGuard.Glob.Parse

/-! Which of the files found in a folder count. -/
namespace CallGuard

/-- Patterns for files to keep and for files to leave out. Without patterns to keep, every file is
kept; what is to be left out is left out in any case. -/
structure FileFilter where
  kept : List Glob
  dropped : List Glob

/-- Why patterns are no filter. -/
inductive PatternFault
  /-- A text is no pattern. -/
  | invalid (pattern : String)
  /-- A pattern cannot be used. -/
  | tooDeep
  deriving DecidableEq, Repr

namespace FileFilter

def read (pattern : String) : Except PatternFault Glob :=
  (Glob.parse pattern).mapError fun _ => .invalid pattern

/-- Reads patterns in order. Only when all are read it matters whether they can be used. -/
def readAll (patterns : List String) : Except PatternFault (List Glob) := do
  let globs ← patterns.mapM read
  if globs.all (·.isUsable) then return globs else throw .tooDeep

def ofPatterns (kept dropped : List String) : Except PatternFault FileFilter := do
  let kept ← readAll kept
  let dropped ← readAll dropped
  return ⟨kept, dropped⟩

def accepts (f : FileFilter) (path : String) : Bool :=
  !(f.dropped.any (·.accepts path)) && (f.kept.isEmpty || f.kept.any (·.accepts path))

end FileFilter

end CallGuard
