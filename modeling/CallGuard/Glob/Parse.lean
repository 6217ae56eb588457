import CallGuard.Glob.Basic

/-! Reading a pattern. -/
namespace CallGuard.Glob

/-- Why a text is no pattern. -/
inductive Fault
  | unclosedClass
  | unclosedBraces
  | unopenedBrace
  | reversedRange
  | nothingEscaped
  deriving DecidableEq, Repr

/-- A row that is being read, within braces or outside of them. Everything is kept last first. -/
structure Level where
  row : List Part
  branches : List (List Part)

/-- The level that is being read and the levels around it. -/
structure Levels where
  current : Level
  outer : List Level

namespace Levels

def start : Levels := ⟨⟨[], []⟩, []⟩

def push (l : Levels) (p : Part) : Levels :=
  { l with current := { l.current with row := p :: l.current.row } }

/-- `**` that does not stand for directories is twice `*`. -/
def pushRuns (l : Levels) : Levels := (l.push .anyRun).push .anyRun

def isInBraces (l : Levels) : Bool := !l.outer.isEmpty

def openBrace (l : Levels) : Levels := ⟨⟨[], []⟩, l.current :: l.outer⟩

/-- A comma parts the branches within braces. -/
def comma (l : Levels) : Levels :=
  if l.isInBraces then
    { l with current := ⟨[], l.current.row.reverse :: l.current.branches⟩ }
  else l.push (.char ',')

def closeBrace (l : Levels) : Except Fault Levels :=
  match l.outer with
  | [] => .error .unopenedBrace
  | level :: outer =>
    let branches := (l.current.row.reverse :: l.current.branches).reverse
    .ok (Levels.push ⟨level, outer⟩ (.either branches))

/-- Puts a part for `**` in the place of the slash before it. Next to another `**` it adds
nothing to what is above or below. -/
def replaceLast (l : Levels) (p : Part) : Levels :=
  match l.current.row with
  | .anyAbove :: _ => l
  | .anyBelow :: _ => l
  | _ :: row => { l with current := { l.current with row := p :: row } }
  | [] => l.push p

/-- Whether `**` may stand for directories behind a character: a slash, or the beginning of a
branch. -/
def allowsDirectories (l : Levels) (previous : Option Char) : Bool :=
  previous == some '/' || (l.isInBraces && (previous == some ',' || previous == some '\x7b'))

def finish (l : Levels) : Except Fault Glob :=
  if l.isInBraces then .error .unclosedBraces else .ok ⟨l.current.row.reverse⟩

end Levels

/-- A class that is being read: its ranges, last first, and what a dash would mean. -/
structure OpenClass where
  negated : Bool
  ranges : List (Char × Char)
  isFirst : Bool
  inRange : Bool

namespace OpenClass

def start (negated : Bool) : OpenClass := ⟨negated, [], true, false⟩

/-- A character that stands for itself, or ends the range that a dash began. The range goes from
the beginning of what was read last. -/
def add (o : OpenClass) (c : Char) : Except Fault OpenClass :=
  match o.inRange, o.ranges with
  | true, (a, _) :: ranges =>
    if c < a then .error .reversedRange else .ok ⟨o.negated, (a, c) :: ranges, false, false⟩
  | _, ranges => .ok ⟨o.negated, (c, c) :: ranges, false, false⟩

/-- A dash is a character of the class if it comes first or ends a range. -/
def dash (o : OpenClass) : Except Fault OpenClass :=
  if o.isFirst || o.inRange then o.add '-' else .ok { o with inRange := true }

/-- The finished class. A dash at its end is one of its characters. -/
def part (o : OpenClass) : Part :=
  .oneOf o.negated ((if o.inRange then ('-', '-') :: o.ranges else o.ranges).reverse)

end OpenClass

/-- Reads a pattern on from a place, within a class or not, after the character `previous`. -/
def readFrom : (class? : Option OpenClass) → (previous : Option Char) → Levels → List Char →
    Except Fault Glob
  | some _, _, _, [] => .error .unclosedClass
  | some o, _, l, c :: rest =>
    if c = ']' && !o.isFirst then readFrom none (some ']') (l.push o.part) rest
    else do
      let o ← if c = '-' then o.dash else o.add c
      readFrom (some o) (some c) l rest
  | none, _, l, [] => l.finish
  | none, _, l, '?' :: rest => readFrom none (some '?') (l.push .anyByte) rest
  | none, previous, l, '*' :: '*' :: rest =>
    if l.current.row.isEmpty then
      match rest with
      | [] => (l.push .anyAbove).finish
      | '/' :: rest => readFrom none (some '/') (l.push .anyAbove) rest
      | c :: rest => readFrom none (some '*') l.pushRuns (c :: rest)
    else if !l.allowsDirectories previous then readFrom none (some '*') l.pushRuns rest
    else
      match rest with
      | [] => (l.replaceLast .anyBelow).finish
      | '/' :: rest => readFrom none (some '/') (l.replaceLast .anyBetween) rest
      | c :: rest =>
        if l.isInBraces && (c == ',' || c == '\x7d') then
          readFrom none (some '*') (l.replaceLast .anyBelow) (c :: rest)
        else readFrom none (some '*') l.pushRuns (c :: rest)
  | none, _, l, '*' :: rest => readFrom none (some '*') (l.push .anyRun) rest
  | none, _, l, '[' :: '!' :: rest => readFrom (some (.start true)) (some '!') l rest
  | none, _, l, '[' :: '^' :: rest => readFrom (some (.start true)) (some '^') l rest
  | none, _, l, '[' :: rest => readFrom (some (.start false)) (some '[') l rest
  | none, _, l, '\x7b' :: rest => readFrom none (some '\x7b') l.openBrace rest
  | none, _, l, '\x7d' :: rest => do readFrom none (some '\x7d') (← l.closeBrace) rest
  | none, _, l, ',' :: rest => readFrom none (some ',') l.comma rest
  | none, _, _, '\\' :: [] => .error .nothingEscaped
  | none, _, l, '\\' :: c :: rest => readFrom none (some c) (l.push (.char c)) rest
  | none, _, l, c :: rest => readFrom none (some c) (l.push (.char c)) rest

/-- The pattern that a text writes. -/
def parse (pattern : String) : Except Fault Glob := readFrom none none .start pattern.toList

end CallGuard.Glob
