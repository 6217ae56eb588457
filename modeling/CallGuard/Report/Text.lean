import CallGuard.Diagnostic
import CallGuard.Report.Style
import CallGuard.Text.Position

/-! Reports to be read by people. -/
namespace CallGuard

/-- The texts that diagnostics are about, by file. Of two texts for one file the later counts. -/
structure Sources where
  texts : List (String × List Char)

namespace Sources

def add (s : Sources) (file : String) (text : List Char) : Sources := ⟨(file, text) :: s.texts⟩

def ofList (texts : List (String × List Char)) : Sources := ⟨texts.reverse⟩

def text? (s : Sources) (file : String) : Option (List Char) := s.texts.lookup file

/-- Line and column of an offset, both from one, if the file is known. -/
def position? (s : Sources) (file : String) (offset : Nat) : Option (Nat × Nat) :=
  (s.text? file).map fun text =>
    let p := (LineMap.ofText text).positionOf offset
    (p.line + 1, p.character + 1)

end Sources

namespace Report

/-- The lines of a text. Nothing stands behind the last line feed. -/
def lines (text : List Char) : List (List Char) :=
  let parts := text.splitOn '\n'
  if parts.getLast? == some [] then parts.dropLast else parts

/-- The text without one carriage return at its end. -/
def dropReturn (line : List Char) : List Char :=
  if line.getLast? == some '\r' then line.dropLast else line

/-- A line of a text. A line feed takes a carriage return before it along, and another one is
dropped for show. -/
def line? (text : List Char) (number : Nat) : Option (List Char) :=
  ((lines text)[number - 1]?).map fun line =>
    let isEnded := number < (text.splitOn '\n').length
    dropReturn (if isEnded then dropReturn line else line)

/-- A tab takes four columns. -/
def widen (c fill : Char) : List Char := List.replicate (if c == '\t' then 4 else 1) fill

def showTabs (line : List Char) : List Char :=
  line.flatMap fun c => if c == '\t' then widen c ' ' else [c]

/-- Blanks below the characters before `start`, tildes below those before `stop`. Both count bytes
from `pos`, where the line begins. -/
def underlineFrom (start stop : Nat) : (pos : Nat) → List Char → List Char
  | _, [] => []
  | pos, c :: cs =>
    if pos < start then widen c ' ' ++ underlineFrom start stop (pos + c.utf8Size) cs
    else if pos < stop then widen c '~' ++ underlineFrom start stop (pos + c.utf8Size) cs
    else []

/-- At least one tilde stands below a line. -/
def underline (start length : Nat) (line : List Char) : List Char :=
  let marks := underlineFrom start (start + length) 0 line
  if marks.contains '~' then marks else marks ++ ['~']

/-- The text behind as many blanks as fill it up to a width. -/
def padLeft (width : Nat) (text : List Char) : List Char :=
  List.replicate (width - text.length) ' ' ++ text

/-- The text with as many blanks behind it as fill it up to a width. -/
def padRight (width : Nat) (text : List Char) : List Char :=
  text ++ List.replicate (width - text.length) ' '

def number (n : Nat) : List Char := (toString n).toList

/-- The line in which the reported piece begins, and what marks the piece below it. -/
def snippet? (colors : Bool) (s : Sources) (d : Diagnostic) : Option (List Char) := do
  if d.length == 0 then none
  else
    let (lineNumber, column) ← s.position? d.file d.start
    let text ← s.text? d.file
    let line ← line? text lineNumber
    let marks := Style.red.applyIf colors (underline (column - 1) d.length line)
    some ("\n  ".toList ++ padLeft 3 (number lineNumber) ++ "   ".toList ++ showTabs line ++
      "\n        ".toList ++ marks)

def place (s : Sources) (d : Diagnostic) : List Char :=
  match s.position? d.file d.start with
  | some (line, column) => d.file.toList ++ ':' :: (number line ++ ':' :: number column)
  | none => d.file.toList

def categoryStyle : Category → Style
  | .error => .boldRed
  | .warning => .boldYellow
  | .suggestion => .boldBlue
  | .message => .boldCyan

def hint (colors : Bool) (d : Diagnostic) : List Char :=
  match d.correction? with
  | some correction =>
    "\n       ".toList ++ Style.dimmed.applyIf colors "hint".toList ++ ": ".toList ++
      correction.toList
  | none => []

/-- The place, the rule and the message in one line, then the line of the text, then the hint. -/
def entry (colors : Bool) (s : Sources) (d : Diagnostic) : List Char :=
  place s d ++ " - ".toList ++ (categoryStyle d.category).applyIf colors d.category.name.toList ++
    [' '] ++ Style.brightBlue.applyIf colors d.ruleId.toList ++ ": ".toList ++ d.message.toList ++
    (snippet? colors s d).getD [] ++ hint colors d

/-- All diagnostics in the given order. -/
def text (colors : Bool) (s : Sources) (ds : List Diagnostic) : String :=
  String.ofList (ds.flatMap fun d => entry colors s d ++ ['\n'])

end Report

end CallGuard
