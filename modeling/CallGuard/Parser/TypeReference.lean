import CallGuard.Parser.State

/-! Types. Of a type only its head name and its plain arguments are kept; the rest is passed over
with its brackets counted, up to a token that cannot go on with the type. -/
namespace CallGuard.Parse

/-- Progress through a type: the brackets still open, innermost first, the token consumed last,
whether anything was consumed, and the plain arguments found, last first. -/
structure TypeScan where
  pending : List Punctuator
  previous : TokenKind
  started : Bool
  args : List String

namespace TypeScan

/-- After these the type must go on, whatever comes next. -/
def expectsMore (k : TokenKind) : Bool :=
  k == .punct .bar || k == .punct .ampersand || k == .punct .arrow

/-- Whether a type ends before the token. -/
def endsBefore (s : TypeScan) (t : Token) : Bool :=
  let top := s.pending.isEmpty
  match t.kind with
  | .endOfFile => true
  | .punct .openBrace | .punct .openParen =>
    top && s.started && !(expectsMore s.previous || s.previous == .punct .colon)
  | .punct .openBracket | .punct .less => false
  | .punct .closeParen | .punct .closeBracket | .punct .closeBrace | .punct .greater
  | .punct .comma | .punct .semicolon | .punct .equal | .punct .question => top
  | k =>
    top && ((k == .punct .arrow && s.previous != .punct .closeParen) ||
      (s.started && (t.afterLineBreak || k.isNameLike) &&
        !(expectsMore s.previous || s.previous == .punct .dot)))

/-- Counts a token that belongs to the type. Any closing bracket closes the innermost one. -/
def take (s : TypeScan) (t : Token) : TypeScan :=
  let pending := match t.kind with
    | .punct .openParen => .openParen :: s.pending
    | .punct .openBracket => .openBracket :: s.pending
    | .punct .openBrace => .openBrace :: s.pending
    | .punct .less => .less :: s.pending
    | .punct .closeParen | .punct .closeBracket | .punct .closeBrace | .punct .greater =>
      s.pending.tail
    | _ => s.pending
  let isArg := t.kind == .identifier && s.pending == [.less] &&
    (s.previous == .punct .less || s.previous == .punct .comma)
  ⟨pending, t.kind, true, if isArg then t.value :: s.args else s.args⟩

end TypeScan

/-- One more part of a dotted name, if there is one. -/
def dottedStep (head : String) : Parse (ForInStep String) := do
  let dotted ← lookAhead do
    if ← isAt (.punct .dot) then
      advance
      isAt .identifier
    else return false
  if dotted then
    advance
    let part ← token
    advance
    return .yield part.value
  else return .done head

/-- `A.B.C` is known by its last name. -/
def typeHead : Parse String := do
  let t ← token
  if t.kind.isNameLike then
    advance
    loop dottedStep t.value
  else return ""

/-- One more token of a type, if the type has not ended. -/
def typeStep (s : TypeScan) : Parse (ForInStep TypeScan) := do
  let t ← token
  if s.endsBefore t then return .done s
  advance
  return .yield (s.take t)

def typeReference : Parse Slot := do
  let start ← here
  let head ← typeHead
  let scan ← loop typeStep ⟨[], .unknown, head != "", []⟩
  unless scan.started do reportHere .identifierExpected
  addNode (.holding .typeReference start (max (← prevStop) start)
    (.typeReference ⟨head, scan.args.reverse⟩))

/-- A type after a colon, if there is a colon. -/
def optionalType : Parse Slot := do
  if ← accept (.punct .colon) then typeReference else return none

/-- One more type, last first, if the row has not ended. -/
def typeRowStep (types : List Slot) : Parse (ForInStep (List Slot)) := do
  let k ← kind
  if k == .punct .greater || k == .endOfFile then return .done types
  let before ← here
  let types := (← typeReference) :: types
  if (← accept (.punct .comma)) && (← here) != before then return .yield types
  else return .done types

/-- `<A, B<C>>` as a row of types. -/
def typeArguments : Parse NodeList := do
  let start ← here
  expect (.punct .less)
  let types ← loop typeRowStep []
  expect (.punct .greater)
  listFrom start types.reverse

/-- These never stand in a list of type arguments that is to be passed over. -/
def endsTypeArguments : TokenKind → Bool
  | .endOfFile | .numericLiteral | .stringLiteral => true
  | .punct .semicolon | .punct .openBrace | .punct .closeBrace | .punct .equal
  | .punct .ampersandAmpersand | .punct .barBar | .punct .plus | .punct .minus => true
  | _ => false

/-- Passes over one token of `<...>`: how many `<` are open, and whether the last one was closed. -/
def skipTypesStep : Nat × Bool → Parse (ForInStep (Nat × Bool)) := fun (depth, _) => do
  let k ← kind
  if endsTypeArguments k then return .done (depth, false)
  advance
  if k == .punct .less then return .yield (depth + 1, false)
  else if k == .punct .greater then
    if depth == 1 then return .done (0, true) else return .yield (depth - 1, false)
  else return .yield (depth, false)

/-- Passes over `<...>` if it can be a list of type arguments, and tells whether it is. -/
def skipTypeArguments : Parse Bool := do
  if ← isAt (.punct .less) then
    let result ← loop skipTypesStep (0, false)
    return result.2
  else return false

/-- Passes over type arguments that stand here. -/
def dropTypeArguments : Parse Unit := do
  if ← isAt (.punct .less) then
    let _ ← skipTypeArguments

/-- Passes over one token of `(...)`: how many brackets are open, and whether the last one was
closed by a parenthesis. -/
def skipParensStep : Nat × Bool → Parse (ForInStep (Nat × Bool)) := fun (depth, _) => do
  match ← kind with
  | .punct .openParen | .punct .openBracket | .punct .openBrace =>
    advance
    return .yield (depth + 1, false)
  | .punct .closeParen | .punct .closeBracket | .punct .closeBrace =>
    let matched ← isAt (.punct .closeParen)
    advance
    if depth == 1 then return .done (0, matched) else return .yield (depth - 1, false)
  | .endOfFile => return .done (depth, false)
  | _ =>
    advance
    return .yield (depth, false)

/-- Passes over `(...)` with brackets of the three kinds counted alike, and tells whether the
last one was a parenthesis. -/
def skipParenthesized : Parse Bool := do
  if ← isAt (.punct .openParen) then
    let result ← loop skipParensStep (0, false)
    return result.2
  else return false

end CallGuard.Parse
