import CallGuard.Tree.Kind

/-! What a node holds besides its kind and its span. Payloads come in forms; several kinds may
share one form. -/
namespace CallGuard

/-- The place of a node in its tree. -/
abbrev NodeId := Nat

/-- A place for a child that may be absent. -/
abbrev Slot := Option NodeId

/-- Children that stand in a row, with the span of the row. -/
structure NodeList where
  items : List Slot
  start : Nat
  stop : Nat
  deriving DecidableEq, Repr

structure Binary where
  left : Slot
  op : NodeKind
  right : Slot
  deriving DecidableEq, Repr

structure Unary where
  op : NodeKind
  operand : Slot
  deriving DecidableEq, Repr

/-- Calls and constructions. A construction may lack its argument list. -/
structure Call where
  callee : Slot
  typeArgs : Option NodeList
  args : Option NodeList
  deriving DecidableEq, Repr

/-- `object.name` or `object[name]`. -/
structure Access where
  object : Slot
  name : Slot
  optional : Bool
  deriving DecidableEq, Repr

structure Conditional where
  condition : Slot
  whenTrue : Slot
  whenFalse : Slot
  deriving DecidableEq, Repr

structure Property where
  name : Slot
  init : Slot
  deriving DecidableEq, Repr

/-- The body of an arrow function may be an expression. -/
structure Function where
  name : Slot
  params : NodeList
  type : Slot
  body : Slot
  deriving DecidableEq, Repr

structure Parameter where
  name : Slot
  type : Slot
  init : Slot
  rest : Bool
  question : Bool
  deriving DecidableEq, Repr

structure Class where
  name : Slot
  heritage : Slot
  members : NodeList
  deriving DecidableEq, Repr

/-- A variable or a field of a class. -/
structure Declaration where
  name : Slot
  type : Slot
  init : Slot
  deriving DecidableEq, Repr

/-- The head name of a type and the names among its direct arguments. -/
structure TypeReference where
  name : String
  args : List String
  deriving DecidableEq, Repr

structure Branch where
  test : Slot
  thenBranch : Slot
  elseBranch : Slot
  deriving DecidableEq, Repr

structure Loop where
  init : Slot
  condition : Slot
  increment : Slot
  body : Slot
  deriving DecidableEq, Repr

/-- A loop over the items or the keys of a value. -/
structure Iteration where
  binding : Slot
  subject : Slot
  body : Slot
  deriving DecidableEq, Repr

structure Attempt where
  block : Slot
  handler : Slot
  finalizer : Slot
  deriving DecidableEq, Repr

structure Handler where
  binding : Slot
  block : Slot
  deriving DecidableEq, Repr

structure SourceFile where
  statements : NodeList
  name : String
  text : List Char
  deriving DecidableEq, Repr

inductive Payload
  | identifier (name : String)
  | literal (text : String)
  | binary (b : Binary)
  | unary (u : Unary)
  | operand (inner : Slot)
  | call (c : Call)
  | access (a : Access)
  | conditional (c : Conditional)
  | parenthesized (inner : Slot)
  | elements (items : NodeList)
  | property (p : Property)
  | computedName (inner : Slot)
  | function (f : Function)
  | parameter (p : Parameter)
  | classBody (c : Class)
  | field (d : Declaration)
  | typeReference (t : TypeReference)
  | block (statements : NodeList)
  | declarations (list : NodeList)
  | declarator (d : Declaration)
  | expressionStatement (inner : Slot)
  | branch (b : Branch)
  | exit (value : Slot)
  | jump (label : Slot)
  | loop (l : Loop)
  | iteration (i : Iteration)
  | attempt (a : Attempt)
  | handler (h : Handler)
  | sourceFile (s : SourceFile)
  deriving DecidableEq, Repr

inductive Form
  | identifier | literal | binary | unary | operand | call | access | conditional
  | parenthesized | elements | property | computedName | function | parameter | classBody | field
  | typeReference | block | declarations | declarator | expressionStatement | branch | exit | jump
  | loop | iteration | attempt | handler | sourceFile
  deriving DecidableEq, Repr

/-- The form that nodes of a kind have, if they hold anything. -/
def NodeKind.form? : NodeKind → Option Form
  | .token .identifier => some .identifier
  | .token .stringLiteral | .token .numericLiteral | .token .templateLiteral => some .literal
  | .binaryExpression => some .binary
  | .prefixUnary | .postfixUnary => some .unary
  | .awaitExpression | .yieldExpression | .spreadElement | .nonNull => some .operand
  | .callExpression | .newExpression => some .call
  | .propertyAccess | .elementAccess => some .access
  | .conditionalExpression => some .conditional
  | .parenthesized => some .parenthesized
  | .arrayLiteral | .objectLiteral => some .elements
  | .propertyAssignment | .shorthandAssignment => some .property
  | .computedName => some .computedName
  | .functionDeclaration | .functionExpression | .arrowFunction | .methodDeclaration
  | .constructorDeclaration => some .function
  | .parameter => some .parameter
  | .classDeclaration => some .classBody
  | .propertyDeclaration => some .field
  | .typeReference => some .typeReference
  | .block => some .block
  | .variableStatement => some .declarations
  | .variableDeclaration => some .declarator
  | .expressionStatement => some .expressionStatement
  | .ifStatement => some .branch
  | .returnStatement | .throwStatement => some .exit
  | .breakStatement | .continueStatement => some .jump
  | .whileStatement | .doStatement | .forStatement => some .loop
  | .forOfStatement | .forInStatement => some .iteration
  | .tryStatement => some .attempt
  | .catchClause => some .handler
  | .sourceFile => some .sourceFile
  | _ => none

namespace Payload

def form : Payload → Form
  | .identifier _ => .identifier
  | .literal _ => .literal
  | .binary _ => .binary
  | .unary _ => .unary
  | .operand _ => .operand
  | .call _ => .call
  | .access _ => .access
  | .conditional _ => .conditional
  | .parenthesized _ => .parenthesized
  | .elements _ => .elements
  | .property _ => .property
  | .computedName _ => .computedName
  | .function _ => .function
  | .parameter _ => .parameter
  | .classBody _ => .classBody
  | .field _ => .field
  | .typeReference _ => .typeReference
  | .block _ => .block
  | .declarations _ => .declarations
  | .declarator _ => .declarator
  | .expressionStatement _ => .expressionStatement
  | .branch _ => .branch
  | .exit _ => .exit
  | .jump _ => .jump
  | .loop _ => .loop
  | .iteration _ => .iteration
  | .attempt _ => .attempt
  | .handler _ => .handler
  | .sourceFile _ => .sourceFile

/-- The places of all that a node becomes the parent of, absent ones too. -/
def slots : Payload → List Slot
  | .identifier _ | .literal _ | .typeReference _ => []
  | .binary b => [b.left, b.right]
  | .unary u => [u.operand]
  | .operand inner | .parenthesized inner | .computedName inner | .expressionStatement inner
  | .exit inner | .jump inner => [inner]
  | .call c =>
    c.callee :: ((c.typeArgs.map (·.items)).getD [] ++ (c.args.map (·.items)).getD [])
  | .access a => [a.object, a.name]
  | .conditional c => [c.condition, c.whenTrue, c.whenFalse]
  | .elements l | .block l | .declarations l => l.items
  | .property p => [p.name, p.init]
  | .function f => f.name :: (f.params.items ++ [f.type, f.body])
  | .parameter p => [p.name, p.type, p.init]
  | .classBody c => c.name :: c.heritage :: c.members.items
  | .field d | .declarator d => [d.name, d.type, d.init]
  | .branch b => [b.test, b.thenBranch, b.elseBranch]
  | .loop l => [l.init, l.condition, l.increment, l.body]
  | .iteration i => [i.binding, i.subject, i.body]
  | .attempt a => [a.block, a.handler, a.finalizer]
  | .handler h => [h.binding, h.block]
  | .sourceFile s => s.statements.items

/-- All that a node becomes the parent of. -/
def links (p : Payload) : List NodeId := p.slots.filterMap id

/-- The places where the children of a node of the given kind are looked for, in the order of the text. The body
of a `do` loop comes before its condition, and it has no other children. -/
def inOrder (kind : NodeKind) : Payload → List Slot
  | .identifier _ | .literal _ | .typeReference _ => []
  | .binary b => [b.left, b.right]
  | .unary u => [u.operand]
  | .operand inner => [inner]
  | .call c =>
    c.callee :: ((c.typeArgs.map (·.items)).getD [] ++ (c.args.map (·.items)).getD [])
  | .access a => [a.object, a.name]
  | .conditional c => [c.condition, c.whenTrue, c.whenFalse]
  | .parenthesized inner => [inner]
  | .elements l => l.items
  | .property p => [p.name, p.init]
  | .computedName inner => [inner]
  | .function f => f.name :: (f.params.items ++ [f.type, f.body])
  | .parameter p => [p.name, p.type, p.init]
  | .classBody c => c.name :: c.heritage :: c.members.items
  | .field d => [d.name, d.type, d.init]
  | .block l => l.items
  | .declarations l => l.items
  | .declarator d => [d.name, d.type, d.init]
  | .expressionStatement inner => [inner]
  | .branch b => [b.test, b.thenBranch, b.elseBranch]
  | .exit value => [value]
  | .jump label => [label]
  | .loop l =>
    match kind with
    | .doStatement => [l.body, l.condition]
    | _ => [l.init, l.condition, l.increment, l.body]
  | .iteration i => [i.binding, i.subject, i.body]
  | .attempt a => [a.block, a.handler, a.finalizer]
  | .handler h => [h.binding, h.block]
  | .sourceFile s => s.statements.items

/-- The children in the order of the text. -/
def childrenAs (kind : NodeKind) (p : Payload) : List NodeId := (p.inOrder kind).filterMap id

/-- Whatever the form, children are looked for where a node becomes a parent; only a `do` loop has an order of its
own. -/
theorem inOrderSlots {kind : NodeKind} (other : kind ≠ .doStatement) (p : Payload) :
    p.inOrder kind = p.slots := by
  cases p with
  | loop l =>
    cases kind with
    | doStatement => exact absurd rfl other
    | _ => rfl
  | _ => rfl

theorem childrenLinked {kind : NodeKind} (other : kind ≠ .doStatement) (p : Payload) :
    p.childrenAs kind = p.links := congrArg (List.filterMap id) (inOrderSlots other p)

end Payload

end CallGuard
