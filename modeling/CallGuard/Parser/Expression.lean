import CallGuard.Parser.TypeReference

/-! Expressions, functions, parameters and binding patterns. -/
namespace CallGuard.Parse

/-- How tightly a binary operator binds; 0 for everything that is none. -/
def precedence (k : TokenKind) (inForbidden : Bool) : Nat :=
  match k with
  | .punct .questionQuestion | .punct .barBar => 1
  | .punct .ampersandAmpersand => 2
  | .punct .bar => 3
  | .punct .caret => 4
  | .punct .ampersand => 5
  | .punct .equalEqual | .punct .bangEqual | .punct .equalEqualEqual | .punct .bangEqualEqual => 6
  | .punct .less | .punct .greater | .punct .lessEqual | .punct .greaterEqual
  | .word .instanceofWord => 7
  | .word .inWord => if inForbidden then 0 else 7
  | .punct .plus | .punct .minus => 8
  | .punct .asterisk | .punct .slash | .punct .percent => 9
  | _ => 0

/-- Operators that may stand before their operand. -/
def isPrefixOperator : TokenKind → Bool
  | .punct .bang | .punct .minus | .punct .plus | .punct .tilde | .punct .plusPlus
  | .punct .minusMinus | .word .typeofWord | .word .voidWord => true
  | _ => false

/-- One more part behind a comma, if there is a comma. -/
def commaStep (sub : SubParse) (start : Nat) (left : Slot) : Parse (ForInStep Slot) := do
  if ← accept (.punct .comma) then
    let right ← sub .assignment
    return .yield
      (← finish .binaryExpression start (.binary ⟨left, .token (.punct .comma), right⟩))
  else return .done left

/-- An expression with commas between its parts, grouped from the left. -/
def expression (sub : SubParse) : Parse Slot := do
  let start ← here
  let first ← sub .assignment
  loop (commaStep sub start) first

/-- One more operator and its right operand, if the operator binds more tightly than `above`. -/
def binaryStep (sub : SubParse) (above start : Nat) (left : Slot) : Parse (ForInStep Slot) := do
  let op ← kind
  let level := precedence op (← get).inForbidden
  if level ≤ above then return .done left
  advance
  let right ← sub (.binary level)
  return .yield (← finish .binaryExpression start (.binary ⟨left, .token op, right⟩))

/-- Left-associative operators that bind more tightly than `above`. -/
def binaryExpression (sub : SubParse) (above : Nat) : Parse Slot := do
  let start ← here
  let first ← sub .unary
  loop (binaryStep sub above start) first

/-- `x = y` in any of its forms, grouped from the right, and `c ? a : b`. -/
def assignmentRest (sub : SubParse) (start : Nat) (left : Slot) : Parse Slot := do
  let op ← kind
  if op.isAssignment then
    advance
    let right ← sub .assignment
    finish .binaryExpression start (.binary ⟨left, .token op, right⟩)
  else if op == .punct .question then
    advance
    let whenTrue ← withInForbidden false (sub .assignment)
    expect (.punct .colon)
    let whenFalse ← sub .assignment
    finish .conditionalExpression start (.conditional ⟨left, whenTrue, whenFalse⟩)
  else return left

/-- Whether the token at hand may begin an expression, as `yield` sees it. -/
def startsExpression : TokenKind → Bool
  | .punct .closeParen | .punct .closeBracket | .punct .closeBrace | .punct .comma
  | .punct .semicolon | .punct .colon | .endOfFile => false
  | _ => true

/-- What `yield` hands out; a line break behind the word leaves it without. -/
def yieldOperand (sub : SubParse) : Parse Slot := do
  if ← afterLineBreak then return none
  else if ← accept (.punct .asterisk) then sub .assignment
  else if startsExpression (← kind) then sub .assignment
  else return none

def yieldExpression (sub : SubParse) : Parse Slot := do
  let start ← here
  advance
  let operand ← yieldOperand sub
  finish .yieldExpression start (.operand operand)

def spreadElement (sub : SubParse) : Parse Slot := do
  let start ← here
  expect (.punct .ellipsis)
  let operand ← sub .assignment
  finish .spreadElement start (.operand operand)

/-! ### Accesses and calls -/

/-- One more argument, last first, if the row has not ended. -/
def argumentStep (sub : SubParse) (args : List Slot) : Parse (ForInStep (List Slot)) := do
  let k ← kind
  if k == .punct .closeParen || k == .endOfFile then return .done args
  let arg ← if k == .punct .ellipsis then spreadElement sub else sub .assignment
  if ← accept (.punct .comma) then return .yield (arg :: args)
  else return .done (arg :: args)

/-- The row of arguments of a call, parentheses included. -/
def arguments (sub : SubParse) : Parse NodeList := do
  let start ← here
  expect (.punct .openParen)
  let args ← withInForbidden false <| loop (argumentStep sub) []
  expect (.punct .closeParen)
  listFrom start args.reverse

def callRest (sub : SubParse) (start : Nat) (callee : Slot) : Parse Slot := do
  let typeArgs ← if ← isAt (.punct .less) then some <$> typeArguments else pure none
  let args ← arguments sub
  finish .callExpression start (.call ⟨callee, typeArgs, some args⟩)

def finishAccess (kind : NodeKind) (start : Nat) (a : Access) : Parse Slot := do
  addNode (.accessing kind start (← prevStop) a)

/-- The name behind a dot that was consumed. -/
def propertyRest (start : Nat) (object : Slot) (optional : Bool) : Parse Slot := do
  let name ← anyName
  finishAccess .propertyAccess start ⟨object, name, optional⟩

def elementRest (sub : SubParse) (start : Nat) (object : Slot) (optional : Bool) : Parse Slot := do
  expect (.punct .openBracket)
  let index ← withInForbidden false (expression sub)
  expect (.punct .closeBracket)
  finishAccess .elementAccess start ⟨object, index, optional⟩

/-- What may follow `?.`: a call, an element or a name. -/
def optionalRest (sub : SubParse) (start : Nat) (object : Slot) : Parse Slot := do
  match ← kind with
  | .punct .openParen | .punct .less =>
    let call ← callRest sub start object
    addFlags call .optionalChain
    return call
  | .punct .openBracket => elementRest sub start object true
  | _ => propertyRest start object true

/-- `<` belongs to a call when it begins type arguments that an argument list follows. -/
def startsGenericCall : Parse Bool := lookAhead do
  if ← skipTypeArguments then isAt (.punct .openParen) else return false

/-- One more access, call or `!`, if there is one. -/
def chainStep (sub : SubParse) (start : Nat) (object : Slot) : Parse (ForInStep Slot) := do
  match ← kind with
  | .punct .dot =>
    advance
    return .yield (← propertyRest start object false)
  | .punct .questionDot =>
    advance
    return .yield (← optionalRest sub start object)
  | .punct .openBracket => return .yield (← elementRest sub start object false)
  | .punct .openParen => return .yield (← callRest sub start object)
  | .punct .less =>
    if ← startsGenericCall then return .yield (← callRest sub start object)
    else return .done object
  | .punct .bang =>
    if ← afterLineBreak then return .done object
    advance
    return .yield (← finish .nonNull start (.operand object))
  | _ => return .done object

/-- Everything that may be appended to an expression: accesses, calls and `!`. -/
def callChain (sub : SubParse) (start : Nat) (first : Slot) : Parse Slot :=
  loop (chainStep sub start) first

/-! ### Functions -/

/-- An identifier or a pattern that takes a value apart. -/
def bindingName (sub : SubParse) : Parse Slot := do
  match ← kind with
  | .punct .openBracket => sub .arrayLiteral
  | .punct .openBrace => sub .objectLiteral
  | .word .thisWord => bareToken
  | _ => name

/-- The value after `=`, if there is an `=`. -/
def initializer (sub : SubParse) : Parse Slot := do
  if ← accept (.punct .equal) then sub .assignment else return none

def isParameterModifier (word : String) : Bool :=
  word == "public" || word == "private" || word == "protected" || word == "readonly"

/-- One more word before a parameter that makes it a field too, if there is one. -/
def modifierStep (_ : Unit) : Parse (ForInStep Unit) := do
  let t ← token
  if t.kind == .identifier && isParameterModifier t.value then
    let modifies ← lookAhead do
      advance
      let k ← kind
      return k.isNameLike || k == .punct .openBrace || k == .punct .openBracket
    if modifies then
      advance
      return .yield ()
    else return .done ()
  else return .done ()

def skipParameterModifiers : Parse Unit := loop modifierStep ()

def parameter (sub : SubParse) : Parse Slot := do
  let start ← here
  skipParameterModifiers
  let rest ← accept (.punct .ellipsis)
  let name ← bindingName sub
  let question ← accept (.punct .question)
  let type ← optionalType
  let init ← initializer sub
  finish .parameter start (.parameter ⟨name, type, init, rest, question⟩)

/-- One more parameter, last first, if the row has not ended. -/
def parameterStep (sub : SubParse) (params : List Slot) : Parse (ForInStep (List Slot)) := do
  let k ← kind
  if k == .punct .closeParen || k == .endOfFile then return .done params
  let before ← here
  let params := (← parameter sub) :: params
  if (← accept (.punct .comma)) && (← here) != before then return .yield params
  else return .done params

/-- `(a, b: T, c = 1, ...rest)`. -/
def parameters (sub : SubParse) : Parse NodeList := do
  let start ← here
  expect (.punct .openParen)
  let params ← loop (parameterStep sub) []
  expect (.punct .closeParen)
  listFrom start params.reverse

/-- Parameters, result type and body of anything like a method. The body may be absent. -/
def methodRest (sub : SubParse) (kind : NodeKind) (start : Nat) (name : Slot)
    (flags : NodeFlags) : Parse Slot := do
  dropTypeArguments
  let params ← parameters sub
  let type ← optionalType
  let body ←
    if ← isAt (.punct .openBrace) then sub .block
    else
      endStatement
      pure none
  let node ← finish kind start (.function ⟨name, params, type, body⟩)
  addFlags node flags
  return node

/-- `function name(...) ...` with `async` before it or `*` after it. -/
def functionMarks : Parse NodeFlags := do
  let async ← isContextual "async"
  if async then advance
  expect (.word .functionWord)
  let star ← accept (.punct .asterisk)
  return (if async then NodeFlags.asyncFlag else 0) ||| (if star then NodeFlags.generator else 0)

def functionExpression (sub : SubParse) : Parse Slot := do
  let start ← here
  let flags ← functionMarks
  let name ← if ← isAt .identifier then name else pure none
  methodRest sub .functionExpression start name flags

/-- `async` with `function` behind it on the same line. -/
def startsAsyncFunction : Parse Bool := do
  if ← isContextual "async" then
    lookAhead do
      advance
      return (← isAt (.word .functionWord)) && !(← afterLineBreak)
  else return false

/-- `x =>`, or a row of parameters with `=>` behind it, from the token at hand on. -/
def arrowFollows : Parse Bool := do
  match ← kind with
  | .identifier =>
    advance
    isAt (.punct .arrow)
  | .punct .openParen | .punct .less =>
    if ← isAt (.punct .less) then
      unless ← skipTypeArguments do return false
    unless ← skipParenthesized do return false
    let _ ← optionalType
    isAt (.punct .arrow)
  | _ => return false

/-- Whether an arrow function begins here. `async =>` has a parameter of that name. -/
def startsArrowFunction : Parse Bool := lookAhead do
  if ← isContextual "async" then
    advance
    if ← afterLineBreak then return false
    if ← isAt (.punct .arrow) then return true
  arrowFollows

/-- A single parameter without parentheses. -/
def bareParameter : Parse NodeList := do
  let start ← here
  let name ← name
  let param ← finish .parameter start (.parameter ⟨name, none, none, false, false⟩)
  listFrom start [param]

def arrowParameters (sub : SubParse) : Parse NodeList := do
  if ← isAt .identifier then bareParameter
  else
    dropTypeArguments
    parameters sub

/-- Result type, arrow and body behind the parameters. -/
def arrowRest (sub : SubParse) (start : Nat) (async : Bool) (params : NodeList) : Parse Slot := do
  let type ← optionalType
  expect (.punct .arrow)
  let body ← if ← isAt (.punct .openBrace) then sub .block else sub .assignment
  let node ← finish .arrowFunction start (.function ⟨none, params, type, body⟩)
  addFlags node (if async then NodeFlags.asyncFlag else 0)
  return node

def arrowFunction (sub : SubParse) : Parse Slot := do
  let start ← here
  let async ←
    if ← isContextual "async" then
      lookAhead do
        advance
        return !(← isAt (.punct .arrow))
    else pure false
  if async then advance
  let params ← arrowParameters sub
  arrowRest sub start async params

/-! ### Literals -/

/-- One more element or hole, last first, if the row has not ended. -/
def elementStep (sub : SubParse) (items : List Slot) : Parse (ForInStep (List Slot)) := do
  match ← kind with
  | .punct .closeBracket | .endOfFile => return .done items
  | .punct .comma =>
    let pos ← here
    let hole ← addNode (.bare .omittedExpression pos pos)
    advance
    return .yield (hole :: items)
  | k =>
    let item ← if k == .punct .ellipsis then spreadElement sub else sub .assignment
    if ← accept (.punct .comma) then return .yield (item :: items)
    else return .done (item :: items)

/-- An array, or a pattern for one. -/
def arrayLiteral (sub : SubParse) : Parse Slot := do
  let start ← here
  expect (.punct .openBracket)
  let listStart ← here
  let items ← loop (elementStep sub) []
  let list ← listFrom listStart items.reverse
  expect (.punct .closeBracket)
  finish .arrayLiteral start (.elements list)

def startsPropertyName (k : TokenKind) : Bool :=
  k.isNameLike || k == .stringLiteral || k == .numericLiteral || k == .punct .openBracket ||
    k == .punct .asterisk

/-- Whether the word at hand modifies a member whose name follows on the same line. -/
def modifiesMember (modifiers : List String) : Parse Bool := do
  let t ← token
  if t.kind == .identifier && modifiers.contains t.value then
    lookAhead do
      advance
      return !(← afterLineBreak) && startsPropertyName (← kind)
  else return false

/-- A name, a string, a number or `[computed]`. -/
def propertyName (sub : SubParse) : Parse Slot := do
  match ← kind with
  | .stringLiteral | .numericLiteral => literal
  | .punct .openBracket =>
    let start ← here
    advance
    let inner ← sub .assignment
    expect (.punct .closeBracket)
    finish .computedName start (.computedName inner)
  | _ => anyName

/-- One more modifier of a member, as the mark it leaves on the node. -/
def markStep (modifiers : List String) (flags : NodeFlags) : Parse (ForInStep NodeFlags) := do
  if ← modifiesMember modifiers then
    let word := (← token).value
    advance
    let mark :=
      if word == "static" then NodeFlags.staticFlag
      else if word == "async" then NodeFlags.asyncFlag
      else 0
    return .yield (flags ||| mark)
  else return .done flags

def memberModifiers (modifiers : List String) : Parse NodeFlags := loop (markStep modifiers) 0

def memberMarks (modifiers : List String) : Parse NodeFlags := do
  let flags ← memberModifiers modifiers
  if ← accept (.punct .asterisk) then return flags ||| NodeFlags.generator
  else return flags

def startsMethod : Parse Bool := do
  let k ← kind
  return k == .punct .openParen || k == .punct .less

def objectMember (sub : SubParse) : Parse Slot := do
  let start ← here
  if ← isAt (.punct .ellipsis) then spreadElement sub
  else
    let flags ← memberMarks ["async", "get", "set"]
    let name ← propertyName sub
    if ← startsMethod then methodRest sub .methodDeclaration start name flags
    else if ← accept (.punct .colon) then
      let init ← sub .assignment
      finish .propertyAssignment start (.property ⟨name, init⟩)
    else
      let init ← initializer sub
      finish .shorthandAssignment start (.property ⟨name, init⟩)

/-- One more member, last first, if the row has not ended. -/
def objectStep (sub : SubParse) (items : List Slot) : Parse (ForInStep (List Slot)) := do
  let k ← kind
  if k == .punct .closeBrace || k == .endOfFile then return .done items
  let before ← here
  let items := (← objectMember sub) :: items
  if (← accept (.punct .comma)) && (← here) != before then return .yield items
  else return .done items

/-- An object, or a pattern for one. -/
def objectLiteral (sub : SubParse) : Parse Slot := do
  let start ← here
  expect (.punct .openBrace)
  let listStart ← here
  let items ← loop (objectStep sub) []
  let list ← listFrom listStart items.reverse
  expect (.punct .closeBrace)
  finish .objectLiteral start (.elements list)

def parenthesized (sub : SubParse) : Parse Slot := do
  let start ← here
  expect (.punct .openParen)
  let inner ← withInForbidden false (expression sub)
  expect (.punct .closeParen)
  finish .parenthesized start (.parenthesized inner)

def primary (sub : SubParse) : Parse Slot := do
  match ← kind with
  | .identifier => if ← startsAsyncFunction then functionExpression sub else name
  | .word .thisWord | .word .superWord | .word .trueWord | .word .falseWord | .word .nullWord =>
    bareToken
  | .numericLiteral | .stringLiteral | .templateLiteral => literal
  | .punct .openParen => parenthesized sub
  | .punct .openBracket => arrayLiteral sub
  | .punct .openBrace => objectLiteral sub
  | .word .functionWord => functionExpression sub
  | _ =>
    reportHere .expressionExpected
    missing

/-! ### Operators before and after -/

/-- One more access, if there is one. -/
def constructorStep (sub : SubParse) (start : Nat) (object : Slot) : Parse (ForInStep Slot) := do
  match ← kind with
  | .punct .dot =>
    advance
    return .yield (← propertyRest start object false)
  | .punct .openBracket => return .yield (← elementRest sub start object false)
  | _ => return .done object

/-- What `new` constructs: names and elements, but no calls. -/
def constructorChain (sub : SubParse) (start : Nat) (first : Slot) : Parse Slot :=
  loop (constructorStep sub start) first

/-- What `new` constructs begins with another `new` or with an operand. -/
def constructorHead (sub : SubParse) : Parse Slot := do
  if ← isAt (.word .newWord) then sub .newExpression else primary sub

/-- The arguments behind what is constructed, if there are any. -/
def constructorRest (sub : SubParse) (start : Nat) (callee : Slot) : Parse Slot := do
  let typeArgs ←
    if ← isAt (.punct .less) then
      if ← lookAhead skipTypeArguments then some <$> typeArguments else pure none
    else pure none
  let args ← if ← isAt (.punct .openParen) then some <$> arguments sub else pure none
  finish .newExpression start (.call ⟨callee, typeArgs, args⟩)

def newExpression (sub : SubParse) : Parse Slot := do
  let start ← here
  expect (.word .newWord)
  if ← enter then
    let calleeStart ← here
    let head ← constructorHead sub
    leave
    let callee ← constructorChain sub calleeStart head
    constructorRest sub start callee
  else missing

def leftHandSide (sub : SubParse) : Parse Slot := do
  let start ← here
  let head ← if ← isAt (.word .newWord) then newExpression sub else primary sub
  callChain sub start head

def postfixExpression (sub : SubParse) : Parse Slot := do
  let start ← here
  let operand ← leftHandSide sub
  let op ← kind
  if (op == .punct .plusPlus || op == .punct .minusMinus) && !(← afterLineBreak) then
    advance
    finish .postfixUnary start (.unary ⟨.token op, operand⟩)
  else return operand

def unaryExpression (sub : SubParse) : Parse Slot := do
  let start ← here
  let op ← kind
  if isPrefixOperator op then
    advance
    if ← enter then
      let operand ← sub .unary
      leave
      finish .prefixUnary start (.unary ⟨.token op, operand⟩)
    else missing
  else if op == .word .awaitWord then
    advance
    if ← enter then
      let operand ← sub .unary
      leave
      finish .awaitExpression start (.operand operand)
    else missing
  else postfixExpression sub

/-- Everything but a comma. -/
def assignment (sub : SubParse) : Parse Slot := nested missing do
  if ← isAt (.word .yieldWord) then yieldExpression sub
  else if ← startsArrowFunction then arrowFunction sub
  else
    let start ← here
    let left ← binaryExpression sub 0
    assignmentRest sub start left

end CallGuard.Parse
