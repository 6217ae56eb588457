import CallGuard.Glob.Form

/-! Which paths a pattern matches. A path is matched as a whole, byte by byte, and a slash is a byte
like any other except next to `**`. Matching goes through the parts of a pattern and keeps the set
of all places in the path that the parts so far can lead to. -/
namespace CallGuard.Glob

/-- For each place in a path, from before its first byte to behind its last one, whether it has
been reached. -/
abbrev Places := List Bool

namespace Places

/-- The beginning of a path. -/
def start (path : List UInt8) : Places := true :: path.map fun _ => false

/-- One byte further, wherever that byte is allowed. -/
def step (allowed : UInt8 → Bool) (path : List UInt8) (reached : Places) : Places :=
  false :: List.zipWith (fun byte here => here && allowed byte) path reached

/-- All places from the first one on that has been reached. -/
def onward (reached : Places) : Places :=
  let before := reached.takeWhile (!·)
  before ++ (reached.drop before.length).map fun _ => true

def union (a b : Places) : Places := List.zipWith (· || ·) a b

/-- Whether the end of the path has been reached. -/
def atEnd (reached : Places) : Bool := reached.getLast? == some true

end Places

/-- The byte of a slash. -/
def slash : UInt8 := 47

def inRanges (ranges : List (UInt8 × UInt8)) (byte : UInt8) : Bool :=
  ranges.any fun (low, high) => low ≤ byte && byte ≤ high

def afterSlash (path : List UInt8) (reached : Places) : Places := reached.step (· == slash) path

/-- The same places and those after a slash further on. -/
def orAfterSlash (path : List UInt8) (reached : Places) : Places :=
  reached.union (afterSlash path reached.onward)

mutual

/-- The places that a part leads to. Void branches do not count beside others. -/
def Part.lead (path : List UInt8) : Part → Places → Places
  | .char c, reached =>
    (String.utf8EncodeChar c).foldl (fun reached x => reached.step (· == x) path) reached
  | .anyByte, reached => reached.step (fun _ => true) path
  | .anyRun, reached => reached.onward
  | .anyAbove, reached => orAfterSlash path reached
  | .anyBetween, reached => orAfterSlash path (afterSlash path reached)
  | .anyBelow, reached => (afterSlash path reached).onward
  | .oneOf negated ranges, reached =>
    let ranges := classRanges ranges
    reached.step (fun byte => inRanges ranges byte != negated) path
  | .either branches, reached =>
    if areVoid branches then reached else leadAny path branches reached

/-- The places that a row of parts leads to. -/
def leadRow (path : List UInt8) : List Part → Places → Places
  | [], reached => reached
  | p :: ps, reached => leadRow path ps (p.lead path reached)

/-- The places that the branches lead to, each by itself. -/
def leadAny (path : List UInt8) : List (List Part) → Places → Places
  | [], reached => reached.map fun _ => false
  | row :: rows, reached =>
    if isVoidRow row then leadAny path rows reached
    else (leadRow path row reached).union (leadAny path rows reached)

end

/-- Whether a path leads up at its end. It then ends in no name. -/
def isNameless (path : String) : Bool := path == ".." || path.endsWith "/.."

/-- Whether a pattern matches a whole path. `**` alone matches everything. A pattern that needs the
name of a file matches no path that has none. -/
def accepts (g : Glob) (path : String) : Bool :=
  if g.form.needsName && isNameless path then false
  else
    let bytes := path.toUTF8.toList
    g.parts matches [.anyAbove] || (leadRow bytes g.parts (.start bytes)).atEnd

end CallGuard.Glob
