import CallGuard.Parser.Fault
import CallGuard.Tree.Basic

/-! The state of reading a program: a place in the row of tokens, the faults met so far, the
nesting depth and the tree built so far. -/
namespace CallGuard

/-- Constructs nested deeper than this are reported and not entered. -/
def maxNesting : Nat := 1000

/-- A place in the row of tokens. `prevStop` is the end of the token consumed last; `errors` has
the newest first. No two faults in a row are reported at one offset. -/
structure Cursor where
  current : Token
  upcoming : List Token
  prevStop : Nat
  errors : List SyntaxError
  lastErrorAt : Option Nat

namespace Cursor

/-- The token after the one at hand. At the end it is the end token again. -/
def next (c : Cursor) : Cursor :=
  match c.upcoming with
  | t :: ts => { c with current := t, upcoming := ts, prevStop := c.current.stop }
  | [] =>
    { c with
      current := { c.current with fullStart := c.current.stop, afterLineBreak := false }
      prevStop := c.current.stop }

def report (c : Cursor) (start length : Nat) (fault : SyntaxFault) : Cursor :=
  if c.lastErrorAt = some start then c
  else { c with errors := ⟨start, length, fault⟩ :: c.errors, lastErrorAt := some start }

end Cursor

/-- `inForbidden` holds while the head of a `for` loop is read, where `in` ends an expression. -/
structure ParseState where
  cursor : Cursor
  depth : Nat
  inForbidden : Bool
  tree : Tree

abbrev Parse := StateM ParseState

namespace Parse

/-! ### Tokens -/

def token : Parse Token := return (← get).cursor.current

def kind : Parse TokenKind := return (← get).cursor.current.kind

def isAt (k : TokenKind) : Parse Bool := return (← kind) == k

/-- Where the token at hand begins. -/
def here : Parse Nat := return (← get).cursor.current.start

def prevStop : Parse Nat := return (← get).cursor.prevStop

def afterLineBreak : Parse Bool := return (← get).cursor.current.afterLineBreak

/-- Whether the token at hand is the given word, used as a name. -/
def isContextual (word : String) : Parse Bool := do
  let t ← token
  return t.kind == .identifier && t.value == word

def advance : Parse Unit := modify fun s => { s with cursor := s.cursor.next }

/-- Runs `p` and then comes back to the same place. Nodes that `p` added stay in the tree. -/
def lookAhead (p : Parse α) : Parse α := fun s =>
  let saved := s.cursor
  let (a, s) := p s
  (a, { s with cursor := saved })

/-! ### Faults -/

def reportHere (fault : SyntaxFault) : Parse Unit := modify fun s =>
  let t := s.cursor.current
  { s with cursor := s.cursor.report t.start (t.stop - t.start) fault }

def accept (k : TokenKind) : Parse Bool := do
  if ← isAt k then
    advance
    return true
  else return false

/-- Consumes a token of the kind, or reports that it is missing and consumes nothing. -/
def expect (k : TokenKind) : Parse Unit := do
  unless ← accept k do reportHere (.tokenExpected k)

/-- A statement may end here: before `;`, `}`, the end of the text or a line break. -/
def canEndStatement : Parse Bool := do
  let t ← token
  return t.kind == .punct .semicolon || t.kind == .punct .closeBrace || t.isEnd || t.afterLineBreak

def endStatement : Parse Unit := do
  unless ← accept (.punct .semicolon) do
    unless ← canEndStatement do expect (.punct .semicolon)

/-! ### Nesting -/

/-- One level deeper, unless the limit is reached: that is reported and answered by `false`. -/
def enter : Parse Bool := do
  if maxNesting ≤ (← get).depth then
    reportHere .nestedTooDeeply
    return false
  else
    modify fun s => { s with depth := s.depth + 1 }
    return true

def leave : Parse Unit := modify fun s => { s with depth := s.depth - 1 }

/-- Runs `body` one level deeper, or `otherwise` when the limit is reached. -/
def nested (otherwise body : Parse α) : Parse α := do
  if ← enter then
    let a ← body
    leave
    return a
  else otherwise

/-- Runs `p` with `in` forbidden or allowed, and then restores what held before. -/
def withInForbidden (forbidden : Bool) (p : Parse α) : Parse α := do
  let before := (← get).inForbidden
  modify fun s => { s with inForbidden := forbidden }
  let a ← p
  modify fun s => { s with inForbidden := before }
  return a

/-! ### Repetition -/

/-- Repeats a step until it is done, at most once for each token given and once more. -/
def repeatOver (step : σ → Parse (ForInStep σ)) : List Token → σ → Parse σ
  | [], a => do
    match ← step a with
    | .done a | .yield a => return a
  | _ :: ts, a => do
    match ← step a with
    | .done a => return a
    | .yield a => repeatOver step ts a

/-- Repeats a step that goes on only after it has consumed a token, which bounds the repetition by
the tokens left. -/
def loop (step : σ → Parse (ForInStep σ)) (a : σ) : Parse σ := do
  repeatOver step (← get).cursor.upcoming a

/-! ### Nodes -/

def addNode (n : Node) : Parse Slot := fun s =>
  (some s.tree.size, { s with tree := s.tree.add n })

/-- A node that ends with the token consumed last. -/
def finish (kind : NodeKind) (start : Nat) (p : Payload) : Parse Slot := do
  addNode (.holding kind start (← prevStop) p)

def addFlags (s : Slot) (flags : NodeFlags) : Parse Unit :=
  match s with
  | some i => modify fun st => { st with tree := st.tree.addFlags i flags }
  | none => return

/-- The row of nodes that began at `start` and ends with the token consumed last. -/
def listFrom (start : Nat) (items : List Slot) : Parse NodeList :=
  return ⟨items, start, max (← prevStop) start⟩

/-- Stands in for a name or an expression that the text lacks. -/
def missing : Parse Slot := do
  let pos ← here
  addNode { Node.holding (.token .identifier) pos pos (.identifier "") with flags := .missing }

/-- A name; reserved words are names too. -/
def anyName : Parse Slot := do
  let t ← token
  if t.kind.isNameLike then
    advance
    addNode (.holding (.token .identifier) t.start t.stop (.identifier t.value))
  else
    reportHere .identifierExpected
    missing

/-- A name that is no reserved word. -/
def name : Parse Slot := do
  if ← isAt .identifier then anyName
  else
    reportHere .identifierExpected
    missing

/-- The token at hand as a node that holds nothing. -/
def bareToken : Parse Slot := do
  let t ← token
  advance
  addNode (.bare (.token t.kind) t.start t.stop)

/-- The literal at hand. -/
def literal : Parse Slot := do
  let t ← token
  advance
  addNode (.holding (.token t.kind) t.start t.stop (.literal t.value))

end Parse

/-- The kinds of text that contain one another. -/
inductive Production
  | statement
  | block
  | assignment
  | binary (above : Nat)
  | unary
  | newExpression
  | arrayLiteral
  | objectLiteral
  deriving DecidableEq, Repr

/-- How the parts of a construct are read. -/
abbrev SubParse := Production → Parse Slot

end CallGuard
