import CallGuard.Parser.Expression

/-! Statements, classes and whole files. -/
namespace CallGuard.Parse

/-- One more statement, last first, if the list has not ended. A statement that consumes nothing is
reported and its first token dropped, so every round consumes a token. -/
def statementStep (sub : SubParse) (wholeFile : Bool) (statements : List Slot) :
    Parse (ForInStep (List Slot)) := do
  let k ← kind
  if k == .endOfFile then return .done statements
  else if k == .punct .closeBrace then
    if wholeFile then
      reportHere .statementExpected
      advance
      return .yield statements
    else return .done statements
  else
    let before ← here
    let statements := match ← sub .statement with
      | some s => some s :: statements
      | none => statements
    if (← here) == before && !(← token).isEnd then
      reportHere .statementExpected
      advance
    return .yield statements

/-- Statements up to `}`, or up to the end of a file. -/
def statementList (sub : SubParse) (wholeFile : Bool) : Parse NodeList := do
  let start ← here
  let statements ← loop (statementStep sub wholeFile) []
  listFrom start statements.reverse

def block (sub : SubParse) : Parse Slot := do
  if ← enter then
    let start ← here
    expect (.punct .openBrace)
    let statements ← statementList sub false
    expect (.punct .closeBrace)
    leave
    finish .block start (.block statements)
  else return none

def emptyStatement : Parse Slot := do
  let start ← here
  expect (.punct .semicolon)
  addNode (.bare .emptyStatement start (← prevStop))

/-- An expression as a statement; nothing if no token was consumed. -/
def expressionStatement (sub : SubParse) : Parse Slot := do
  let start ← here
  let inner ← expression sub
  if (← here) == start then return none
  endStatement
  finish .expressionStatement start (.expressionStatement inner)

/-! ### Declarations -/

/-- `x: T = v`, with a possible `!` behind the name. -/
def variableDeclaration (sub : SubParse) : Parse Slot := do
  let start ← here
  let name ← bindingName sub
  let _ ← accept (.punct .bang)
  let type ← optionalType
  let init ← initializer sub
  finish .variableDeclaration start (.declarator ⟨name, type, init⟩)

/-- One more declaration, last first. -/
def declarationStep (sub : SubParse) (items : List Slot) : Parse (ForInStep (List Slot)) := do
  let item ← variableDeclaration sub
  if ← accept (.punct .comma) then return .yield (item :: items)
  else return .done (item :: items)

/-- `let a = x, b` without what ends the statement. -/
def variableDeclarations (sub : SubParse) : Parse Slot := do
  let start ← here
  let flags := match ← kind with
    | .word .letWord => NodeFlags.letFlag
    | .word .constWord => NodeFlags.constFlag
    | _ => 0
  advance
  let listStart ← here
  let items ← loop (declarationStep sub) []
  let list ← listFrom listStart items.reverse
  let node ← finish .variableStatement start (.declarations list)
  addFlags node flags
  return node

/-- Moves the end of a node to the token consumed last. -/
def stretch (s : Slot) : Parse Unit := do
  let stop ← prevStop
  match s with
  | some i => modify fun st => { st with tree := st.tree.setStop i stop }
  | none => return

def variableStatement (sub : SubParse) : Parse Slot := do
  let node ← variableDeclarations sub
  endStatement
  stretch node
  return node

def functionDeclaration (sub : SubParse) : Parse Slot := do
  let start ← here
  let flags ← functionMarks
  let name ← name
  methodRest sub .functionDeclaration start name flags

/-! ### Control flow -/

def condition (sub : SubParse) : Parse Slot := do
  expect (.punct .openParen)
  let test ← expression sub
  expect (.punct .closeParen)
  return test

def ifStatement (sub : SubParse) : Parse Slot := do
  let start ← here
  expect (.word .ifWord)
  let test ← condition sub
  let thenBranch ← sub .statement
  let elseBranch ← if ← accept (.word .elseWord) then sub .statement else pure none
  finish .ifStatement start (.branch ⟨test, thenBranch, elseBranch⟩)

def whileStatement (sub : SubParse) : Parse Slot := do
  let start ← here
  expect (.word .whileWord)
  let test ← condition sub
  let body ← sub .statement
  finish .whileStatement start (.loop ⟨none, test, none, body⟩)

def doStatement (sub : SubParse) : Parse Slot := do
  let start ← here
  expect (.word .doWord)
  let body ← sub .statement
  expect (.word .whileWord)
  let test ← condition sub
  let _ ← accept (.punct .semicolon)
  finish .doStatement start (.loop ⟨none, test, none, body⟩)

/-- What a `for` loop begins with, up to `;`, `of` or `in`. -/
def forInitializer (sub : SubParse) : Parse Slot := withInForbidden true do
  match ← kind with
  | .punct .semicolon => return none
  | .word .varWord | .word .letWord | .word .constWord => variableDeclarations sub
  | _ => expression sub

/-- An expression, unless the token that ends its place is at hand. -/
def expressionUnless (sub : SubParse) (k : TokenKind) : Parse Slot := do
  if ← isAt k then return none else expression sub

/-- The kind of a loop over items or keys, when one stands here. -/
def iterationKind : Parse (Option NodeKind) := do
  if ← isContextual "of" then return some .forOfStatement
  else if ← isAt (.word .inWord) then return some .forInStatement
  else return none

def forStatement (sub : SubParse) : Parse Slot := do
  let start ← here
  expect (.word .forWord)
  let _ ← accept (.word .awaitWord)
  expect (.punct .openParen)
  let init ← forInitializer sub
  match ← iterationKind with
  | some kind =>
    advance
    let subject ← sub .assignment
    expect (.punct .closeParen)
    let body ← sub .statement
    finish kind start (.iteration ⟨init, subject, body⟩)
  | none =>
    expect (.punct .semicolon)
    let test ← expressionUnless sub (.punct .semicolon)
    expect (.punct .semicolon)
    let increment ← expressionUnless sub (.punct .closeParen)
    expect (.punct .closeParen)
    let body ← sub .statement
    finish .forStatement start (.loop ⟨init, test, increment, body⟩)

/-- `return` and `throw`. -/
def exitStatement (sub : SubParse) (kind : NodeKind) : Parse Slot := do
  let start ← here
  advance
  let value ← if ← canEndStatement then pure none else expression sub
  endStatement
  finish kind start (.exit value)

/-- `break` and `continue`. -/
def jumpStatement (kind : NodeKind) : Parse Slot := do
  let start ← here
  advance
  let labelled := (← isAt .identifier) && !(← afterLineBreak)
  let label ← if labelled then name else pure none
  endStatement
  finish kind start (.jump label)

def catchClause (sub : SubParse) : Parse Slot := do
  let start ← here
  if ← accept (.word .catchWord) then
    let binding ←
      if ← accept (.punct .openParen) then
        let declaration ← variableDeclaration sub
        expect (.punct .closeParen)
        pure declaration
      else pure none
    let body ← sub .block
    finish .catchClause start (.handler ⟨binding, body⟩)
  else return none

def tryStatement (sub : SubParse) : Parse Slot := do
  let start ← here
  expect (.word .tryWord)
  let body ← sub .block
  let handler ← catchClause sub
  let finalizer ← if ← accept (.word .finallyWord) then sub .block else pure none
  if handler.isNone && finalizer.isNone then expect (.word .catchWord)
  finish .tryStatement start (.attempt ⟨body, handler, finalizer⟩)

/-! ### Classes -/

def classModifiers : List String :=
  ["static", "public", "private", "protected", "readonly", "abstract", "override", "declare",
   "async", "get", "set"]

/-- `constructor` with a parenthesis behind it. -/
def startsConstructor : Parse Bool := do
  if ← isContextual "constructor" then
    lookAhead do
      advance
      isAt (.punct .openParen)
  else return false

/-- A field, a method or a constructor; nothing if no member begins here. -/
def classMember (sub : SubParse) : Parse Slot := do
  let start ← here
  let flags ← memberMarks classModifiers
  if ← startsConstructor then
    advance
    methodRest sub .constructorDeclaration start none flags
  else if startsPropertyName (← kind) then
    let name ← propertyName sub
    let _ ← accept (.punct .question)
    let _ ← accept (.punct .bang)
    if ← startsMethod then methodRest sub .methodDeclaration start name flags
    else
      let type ← optionalType
      let init ← initializer sub
      endStatement
      let node ← finish .propertyDeclaration start (.field ⟨name, type, init⟩)
      addFlags node flags
      return node
  else return none

/-- One more member, last first, or a stray semicolon, if the row has not ended. -/
def memberStep (sub : SubParse) (members : List Slot) : Parse (ForInStep (List Slot)) := do
  let k ← kind
  if k == .punct .closeBrace || k == .endOfFile then return .done members
  else if ← accept (.punct .semicolon) then return .yield members
  else
    let before ← here
    let members := match ← classMember sub with
      | some m => some m :: members
      | none => members
    if (← here) == before then
      reportHere .unexpectedToken
      advance
    return .yield members

/-- Members up to `}`. -/
def classMembers (sub : SubParse) : Parse NodeList := do
  let start ← here
  let members ← loop (memberStep sub) []
  listFrom start members.reverse

/-- One more interface. -/
def interfaceStep (_ : Unit) : Parse (ForInStep Unit) := do
  let _ ← typeReference
  if ← accept (.punct .comma) then return .yield () else return .done ()

/-- The interfaces that a class names. They leave no trace but their own nodes. -/
def skipInterfaces : Parse Unit := do
  if ← isContextual "implements" then
    advance
    loop interfaceStep ()

/-- `class Name<T> extends Base<U> implements I, J` and the members in braces. -/
def classDeclaration (sub : SubParse) : Parse Slot := do
  let start ← here
  expect (.word .classWord)
  let named := (← isAt .identifier) && !(← isContextual "implements")
  let name ← if named then name else pure none
  dropTypeArguments
  let heritage ←
    if ← accept (.word .extendsWord) then
      let base ← leftHandSide sub
      dropTypeArguments
      pure base
    else pure none
  skipInterfaces
  expect (.punct .openBrace)
  let members ← classMembers sub
  expect (.punct .closeBrace)
  finish .classDeclaration start (.classBody ⟨name, heritage, members⟩)

/-! ### Any statement -/

def statement (sub : SubParse) : Parse Slot := nested (return none) do
  match ← kind with
  | .punct .openBrace => sub .block
  | .punct .semicolon => emptyStatement
  | .word .varWord | .word .letWord | .word .constWord => variableStatement sub
  | .word .functionWord => functionDeclaration sub
  | .identifier =>
    if ← startsAsyncFunction then functionDeclaration sub else expressionStatement sub
  | .word .classWord => classDeclaration sub
  | .word .ifWord => ifStatement sub
  | .word .whileWord => whileStatement sub
  | .word .doWord => doStatement sub
  | .word .forWord => forStatement sub
  | .word .returnWord => exitStatement sub .returnStatement
  | .word .throwWord => exitStatement sub .throwStatement
  | .word .breakWord => jumpStatement .breakStatement
  | .word .continueWord => jumpStatement .continueStatement
  | .word .tryWord => tryStatement sub
  | _ => expressionStatement sub

/-- The rule of each production, over the way in which its parts are read. -/
def rule (sub : SubParse) : Production → Parse Slot
  | .statement => statement sub
  | .block => block sub
  | .assignment => assignment sub
  | .binary above => binaryExpression sub above
  | .unary => unaryExpression sub
  | .newExpression => newExpression sub
  | .arrayLiteral => arrayLiteral sub
  | .objectLiteral => objectLiteral sub

/-- Reads a production with at most `fuel` productions inside one another. -/
def production : (fuel : Nat) → SubParse
  | 0 => fun _ => return none
  | fuel + 1 => rule (production fuel)

end CallGuard.Parse
