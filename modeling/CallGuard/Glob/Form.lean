import CallGuard.Glob.Basic

/-! What a pattern asks for at first sight. Most patterns only ask how a path begins, ends or is
named; such patterns are told here from those that take a closer look. -/
namespace CallGuard.Glob

/-- What a pattern asks for. -/
inductive Form
  /-- `**/name`: the name of a file, wherever it is. -/
  | name
  /-- A single path. -/
  | path
  /-- `*.ext`: an extension and nothing else. -/
  | extension
  /-- A beginning. -/
  | beginning
  /-- An end, perhaps from a slash on. -/
  | ending
  /-- An extension and more. -/
  | extensionAndMore
  /-- Anything else. -/
  | other
  deriving DecidableEq, Repr

/-- The characters of a row that holds nothing else. -/
def characters? : List Part → Option (List Char)
  | [] => some []
  | .char c :: parts => (characters? parts).map (c :: ·)
  | _ :: _ => none

/-- Whether a row is made of characters, at least one of them, that all fulfil a condition. -/
def isWord (allowed : Char → Bool) (parts : List Part) : Bool :=
  match characters? parts with
  | none | some [] => false
  | some cs => cs.all allowed

/-- A row without directories above. -/
def belowAbove : List Part → List Part
  | .anyAbove :: parts => parts
  | parts => parts

def asksForName : List Part → Bool
  | .anyAbove :: parts => isWord (· != '/') parts
  | _ => false

/-- The extension may be empty behind its point. -/
def asksForExtension (parts : List Part) : Bool :=
  match belowAbove parts with
  | .anyRun :: .char '.' :: parts =>
    (characters? parts).any (·.all fun c => c != '.' && c != '/')
  | _ => false

def asksForBeginning (parts : List Part) : Bool :=
  match parts.getLast? with
  | some .anyRun => isWord (fun _ => true) parts.dropLast
  | some .anyBelow => (characters? parts.dropLast).isSome
  | _ => false

/-- A run of anything may come first. An end that is a mere slash does not count. -/
def asksForEnding (parts : List Part) : Bool :=
  match belowAbove parts with
  | .anyRun :: parts => isWord (fun _ => true) parts && characters? parts != some ['/']
  | _ => parts matches .anyAbove :: _ && isWord (fun _ => true) (belowAbove parts)

/-- Whether a row ends in a point and other characters, none of them a slash. -/
def endsInExtension (parts : List Part) : Bool :=
  match parts.reverse.dropWhile fun p => p matches .char _ && !(p matches .char '.' | .char '/') with
  | .char '.' :: _ => true
  | _ => false

/-- What a pattern asks for. -/
def form (g : Glob) : Form :=
  if asksForName g.parts then .name
  else if isWord (fun _ => true) g.parts then .path
  else if asksForExtension g.parts then .extension
  else if asksForBeginning g.parts then .beginning
  else if asksForEnding g.parts then .ending
  else if endsInExtension g.parts then .extensionAndMore
  else .other

namespace Form

/-- Whether the name of a file has to be known. -/
def needsName : Form → Bool
  | .name | .extension | .extensionAndMore => true
  | _ => false

/-- Whether the parts of a pattern have to be looked at one by one. -/
def needsParts : Form → Bool
  | .extensionAndMore | .other => true
  | _ => false

end Form

end CallGuard.Glob
