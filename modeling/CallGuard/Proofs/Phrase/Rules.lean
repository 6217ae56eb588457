import CallGuard.Parser.Statement

/-! The rules of the language, as the parts that a node of each kind is made of: tokens, tokens of
types that are passed over, and nodes of other categories. -/
namespace CallGuard.Phrase

/- What can stand somewhere in a program. A variable statement is the list of its declarations; the
semicolon behind it belongs to the statement around it. -/
inductive Category
  | expression | binding | label | name | key | spread | hole | type | member | parameter
  | declaration | declarations | block | statement | handler | classMember | file
  deriving DecidableEq

inductive Part
  | token (t : Token)
  | skipped (t : Token)
  | node (c : Category) (i : NodeId)

def Part.node? : Part → Option NodeId
  | .node _ i => some i
  | _ => none

def nodes (row : List Part) : List NodeId := row.filterMap Part.node?

@[simp] theorem nodesNil : nodes [] = [] := rfl
@[simp] theorem nodesToken (t : Token) (row : List Part) : nodes (.token t :: row) = nodes row := rfl
@[simp] theorem nodesSkipped (t : Token) (row : List Part) : nodes (.skipped t :: row) = nodes row := rfl

@[simp] theorem nodesNode (c : Category) (i : NodeId) (row : List Part) :
    nodes (.node c i :: row) = i :: nodes row := rfl

@[simp] theorem nodesAppend (row more : List Part) : nodes (row ++ more) = nodes row ++ nodes more :=
  List.filterMap_append

/-! ### Rows of parts -/

/- A token that may be left out, and whether it is there. -/
inductive Maybe (k : TokenKind) : Bool → List Part → Prop where
  | absent : Maybe k false []
  | there {t} (kind : t.kind = k) : Maybe k true [.token t]

/- A node that may be left out. -/
inductive Perhaps (c : Category) : Slot → List Part → Prop where
  | absent : Perhaps c none []
  | there {i} : Perhaps c (some i) [.node c i]

/- A node behind a token that announces it. -/
inductive Behind (k : TokenKind) (c : Category) : Slot → List Part → Prop where
  | absent : Behind k c none []
  | there {t i} (kind : t.kind = k) : Behind k c (some i) [.token t, .node c i]

/- Types that leave no trace in the tree. -/
def Dropped (row : List Part) : Prop := ∃ ts : List Token, row = ts.map .skipped

/- Words before a function or a member, and the `*` among them. -/
def isMark (k : TokenKind) : Prop :=
  k = .identifier ∨ k = .word .functionWord ∨ k = .punct .asterisk

inductive Marks : List Part → Prop where
  | nil : Marks []
  | next {t row} (before : Marks row) (mark : isMark t.kind) : Marks (row ++ [.token t])

/- Items, last first, each with a comma behind it. -/
inductive Led (cs : List Category) : List Slot → List Part → Prop where
  | nil : Led cs [] []
  | next {items row c i t} (before : Led cs items row) (own : c ∈ cs)
      (comma : t.kind = .punct .comma) : Led cs (some i :: items) (row ++ [.node c i, .token t])

/- Items, last first, with commas between them and perhaps one behind the last. -/
inductive Listed (cs : List Category) : List Slot → List Part → Prop where
  | led {items row} (led : Led cs items row) : Listed cs items row
  | last {items row c i} (before : Led cs items row) (own : c ∈ cs) :
      Listed cs (some i :: items) (row ++ [.node c i])

/- A list in brackets. -/
inductive Bracketed (opening closing : TokenKind) (cs : List Category) :
    NodeList → List Part → Prop where
  | mk {l row o c} (opens : o.kind = opening) (listed : Listed cs l.items.reverse row)
      (closes : c.kind = closing) :
      Bracketed opening closing cs l (.token o :: (row ++ [.token c]))

inductive TypeArguments : Option NodeList → List Part → Prop where
  | absent : TypeArguments none []
  | there {l row} (given : Bracketed (.punct .less) (.punct .greater) [.type] l row) :
      TypeArguments (some l) row

def Arguments : NodeList → List Part → Prop :=
  Bracketed (.punct .openParen) (.punct .closeParen) [.expression, .spread]

def Parameters : NodeList → List Part → Prop :=
  Bracketed (.punct .openParen) (.punct .closeParen) [.parameter]

inductive Yielded : Slot → List Part → Prop where
  | absent : Yielded none []
  | plain {x} : Yielded (some x) [.node .expression x]
  | all {t x} (star : t.kind = .punct .asterisk) : Yielded (some x) [.token t, .node .expression x]

/- A body, or the end of a declaration without one. -/
inductive Bodied : Slot → List Part → Prop where
  | block {x} : Bodied (some x) [.node .block x]
  | absent {ended row} (semicolon : Maybe (.punct .semicolon) ended row) : Bodied none row

inductive Rested : Function → List Part → Prop where
  | mk {f types params type body} (dropped : Dropped types) (given : Parameters f.params params)
      (result : Behind (.punct .colon) .type f.type type) (bodied : Bodied f.body body) :
      Rested f (types ++ (params ++ (type ++ body)))

/- What stands before the parameters of a function. -/
inductive Headed : Category → NodeKind → Slot → List Part → Prop where
  | declaration {x marks} (marked : Marks marks) :
      Headed .statement .functionDeclaration (some x) (marks ++ [.node .binding x])
  | anonymous {marks} (marked : Marks marks) : Headed .expression .functionExpression none marks
  | named {x marks} (marked : Marks marks) :
      Headed .expression .functionExpression (some x) (marks ++ [.node .binding x])
  | method {x marks} (marked : Marks marks) :
      Headed .member .methodDeclaration (some x) (marks ++ [.node .key x])
  | classMethod {x marks asked q banged e} (marked : Marks marks)
      (asks : Maybe (.punct .question) asked q) (bangs : Maybe (.punct .bang) banged e) :
      Headed .classMember .methodDeclaration (some x) (marks ++ .node .key x :: (q ++ e))
  | constructor {marks} (marked : Marks marks) :
      Headed .classMember .constructorDeclaration none marks

inductive ArrowParameters : NodeList → List Part → Prop where
  | bare {l x} (only : l.items = [some x]) : ArrowParameters l [.node .parameter x]
  | bracketed {l types params} (dropped : Dropped types) (given : Parameters l params) :
      ArrowParameters l (types ++ params)

inductive Tested : Slot → List Part → Prop where
  | mk {x o c} (opens : o.kind = .punct .openParen) (closes : c.kind = .punct .closeParen) :
      Tested (some x) [.token o, .node .expression x, .token c]

inductive Stated : Slot → List Part → Prop where
  | plain {x} : Stated (some x) [.node .statement x]
  | block {x} : Stated (some x) [.node .block x]
  | declarations {x ended row} (semicolon : Maybe (.punct .semicolon) ended row) :
      Stated (some x) (.node .declarations x :: row)

/- Statements, last first. -/
inductive Statements : List Slot → List Part → Prop where
  | nil : Statements [] []
  | next {items row s more} (before : Statements items row) (stated : Stated s more) :
      Statements (s :: items) (row ++ more)

inductive Otherwise : Slot → List Part → Prop where
  | absent : Otherwise none []
  | there {t s row} (kind : t.kind = .word .elseWord) (stated : Stated s row) :
      Otherwise s (.token t :: row)

/- What a loop begins with. -/
inductive Begins : Slot → List Part → Prop where
  | expression {x} : Begins (some x) [.node .expression x]
  | declarations {x} : Begins (some x) [.node .declarations x]

/- What a clause catches. -/
inductive Catches : Slot → List Part → Prop where
  | absent : Catches none []
  | there {x o c} (opens : o.kind = .punct .openParen) (closes : c.kind = .punct .closeParen) :
      Catches (some x) [.token o, .node .declaration x, .token c]

inductive Extends : Slot → List Part → Prop where
  | absent : Extends none []
  | there {t x types} (kind : t.kind = .word .extendsWord) (dropped : Dropped types) :
      Extends (some x) (.token t :: .node .expression x :: types)

/- The members of a class, last first, and between them semicolons and marks of no member. -/
inductive Members : List Slot → List Part → Prop where
  | nil : Members [] []
  | member {items row x} (before : Members items row) :
      Members (some x :: items) (row ++ [.node .classMember x])
  | semicolon {items row t} (before : Members items row) (kind : t.kind = .punct .semicolon) :
      Members items (row ++ [.token t])
  | marks {items row more} (before : Members items row) (marked : Marks more) :
      Members items (row ++ more)

/-! ### Kinds of tokens -/

def joins (k : TokenKind) : Bool :=
  k == .punct .comma || k.isAssignment || 0 < Parse.precedence k false

def isConstant (k : TokenKind) : Prop :=
  k = .word .thisWord ∨ k = .word .superWord ∨ k = .word .trueWord ∨ k = .word .falseWord ∨
    k = .word .nullWord

def isLiteral (k : TokenKind) : Prop :=
  k = .numericLiteral ∨ k = .stringLiteral ∨ k = .templateLiteral

def isStep (k : TokenKind) : Prop := k = .punct .plusPlus ∨ k = .punct .minusMinus

def isDeclarator (k : TokenKind) : Prop :=
  k = .word .varWord ∨ k = .word .letWord ∨ k = .word .constWord

/- The words of statements that leave a row of statements or a loop. -/
inductive Exits : NodeKind → TokenKind → Prop where
  | returns : Exits .returnStatement (.word .returnWord)
  | throws : Exits .throwStatement (.word .throwWord)

inductive Jumps : NodeKind → TokenKind → Prop where
  | breaks : Jumps .breakStatement (.word .breakWord)
  | continues : Jumps .continueStatement (.word .continueWord)

inductive Iterates : NodeKind → TokenKind → Prop where
  | items : Iterates .forOfStatement .identifier
  | keys : Iterates .forInStatement (.word .inWord)

/-! ### Nodes -/

/- What a node of a category is made of. -/
inductive Made : Category → NodeKind → Option Payload → List Part → Prop where
  -- Words and literals.
  | name {c t} (role : c = .name ∨ c = .key) (named : t.kind.isNameLike = true) :
      Made c (.token .identifier) (some (.identifier t.value)) [.token t]
  | identifier {c t} (role : c = .expression ∨ c = .binding ∨ c = .label)
      (kind : t.kind = .identifier) :
      Made c (.token .identifier) (some (.identifier t.value)) [.token t]
  | constant {t} (kind : isConstant t.kind) : Made .expression (.token t.kind) none [.token t]
  | bound {t} (kind : t.kind = .word .thisWord) : Made .binding (.token t.kind) none [.token t]
  | literal {c t} (role : c = .expression ∨ c = .key) (kind : isLiteral t.kind) :
      Made c (.token t.kind) (some (.literal t.value)) [.token t]
  | computed {o x c} (opens : o.kind = .punct .openBracket) (closes : c.kind = .punct .closeBracket) :
      Made .key .computedName (some (.computedName (some x)))
        [.token o, .node .expression x, .token c]
  | type (r : TypeReference) {ts} (filled : ts ≠ []) :
      Made .type .typeReference (some (.typeReference r)) (ts.map .skipped)
  | hole : Made .hole .omittedExpression none []
  -- Operators.
  | binary {l o r} (operator : joins o.kind = true) :
      Made .expression .binaryExpression (some (.binary ⟨some l, .token o.kind, some r⟩))
        [.node .expression l, .token o, .node .expression r]
  | conditional {c q a k b} (asks : q.kind = .punct .question) (parts : k.kind = .punct .colon) :
      Made .expression .conditionalExpression (some (.conditional ⟨some c, some a, some b⟩))
        [.node .expression c, .token q, .node .expression a, .token k, .node .expression b]
  | prefixed {o x} (operator : Parse.isPrefixOperator o.kind = true) :
      Made .expression .prefixUnary (some (.unary ⟨.token o.kind, some x⟩))
        [.token o, .node .expression x]
  | postfixed {o x} (operator : isStep o.kind) :
      Made .expression .postfixUnary (some (.unary ⟨.token o.kind, some x⟩))
        [.node .expression x, .token o]
  | awaited {t x} (word : t.kind = .word .awaitWord) :
      Made .expression .awaitExpression (some (.operand (some x))) [.token t, .node .expression x]
  | yielded {t s row} (word : t.kind = .word .yieldWord) (value : Yielded s row) :
      Made .expression .yieldExpression (some (.operand s)) (.token t :: row)
  | spread {t x} (mark : t.kind = .punct .ellipsis) :
      Made .spread .spreadElement (some (.operand (some x))) [.token t, .node .expression x]
  -- Accesses and calls.
  | nonNull {x t} (mark : t.kind = .punct .bang) :
      Made .expression .nonNull (some (.operand (some x))) [.node .expression x, .token t]
  | property {x t n optional}
      (mark : t.kind = if optional then .punct .questionDot else .punct .dot) :
      Made .expression .propertyAccess (some (.access ⟨some x, some n, optional⟩))
        [.node .expression x, .token t, .node .name n]
  | element {x q o n c optional} (asks : Maybe (.punct .questionDot) optional q)
      (opens : o.kind = .punct .openBracket) (closes : c.kind = .punct .closeBracket) :
      Made .expression .elementAccess (some (.access ⟨some x, some n, optional⟩))
        (.node .expression x :: (q ++ [.token o, .node .expression n, .token c]))
  | call {x q optional typeArgs types args row} (asks : Maybe (.punct .questionDot) optional q)
      (generic : TypeArguments typeArgs types) (given : Arguments args row) :
      Made .expression .callExpression (some (.call ⟨some x, typeArgs, some args⟩))
        (.node .expression x :: (q ++ (types ++ row)))
  | bareConstruction {t x typeArgs types} (word : t.kind = .word .newWord)
      (generic : TypeArguments typeArgs types) :
      Made .expression .newExpression (some (.call ⟨some x, typeArgs, none⟩))
        (.token t :: .node .expression x :: types)
  | construction {t x typeArgs types args row} (word : t.kind = .word .newWord)
      (generic : TypeArguments typeArgs types) (given : Arguments args row) :
      Made .expression .newExpression (some (.call ⟨some x, typeArgs, some args⟩))
        (.token t :: .node .expression x :: (types ++ row))
  | parenthesized {o x c} (opens : o.kind = .punct .openParen) (closes : c.kind = .punct .closeParen) :
      Made .expression .parenthesized (some (.parenthesized (some x)))
        [.token o, .node .expression x, .token c]
  -- Literals and patterns of many parts.
  | array {c l row} (role : c = .expression ∨ c = .binding)
      (items : Bracketed (.punct .openBracket) (.punct .closeBracket) [.expression, .spread, .hole]
        l row) : Made c .arrayLiteral (some (.elements l)) row
  | object {c l row} (role : c = .expression ∨ c = .binding)
      (items : Bracketed (.punct .openBrace) (.punct .closeBrace) [.member, .spread] l row) :
      Made c .objectLiteral (some (.elements l)) row
  | assigned {marks n t x} (marked : Marks marks) (mark : t.kind = .punct .colon) :
      Made .member .propertyAssignment (some (.property ⟨some n, some x⟩))
        (marks ++ [.node .key n, .token t, .node .expression x])
  | shorthand {marks n s row} (marked : Marks marks)
      (initial : Behind (.punct .equal) .expression s row) :
      Made .member .shorthandAssignment (some (.property ⟨some n, s⟩))
        (marks ++ .node .key n :: row)
  -- Functions.
  | parameter {p n marks e q type init} (marked : Marks marks) (name : p.name = some n)
      (rests : Maybe (.punct .ellipsis) p.rest e) (asks : Maybe (.punct .question) p.question q)
      (typed : Behind (.punct .colon) .type p.type type)
      (initial : Behind (.punct .equal) .expression p.init init) :
      Made .parameter .parameter (some (.parameter p))
        (marks ++ (e ++ .node .binding n :: (q ++ (type ++ init))))
  | function {c kind f head rest} (headed : Headed c kind f.name head) (rested : Rested f rest) :
      Made c kind (some (.function f)) (head ++ rest)
  | arrow {f marks params type t c x} (marked : Marks marks) (anonymous : f.name = none)
      (given : ArrowParameters f.params params) (result : Behind (.punct .colon) .type f.type type)
      (mark : t.kind = .punct .arrow) (role : c = .block ∨ c = .expression) (body : f.body = some x) :
      Made .expression .arrowFunction (some (.function f))
        (marks ++ (params ++ (type ++ [.token t, .node c x])))
  -- Declarations.
  | declarator {n banged b type init d} (name : d.name = some n) (bangs : Maybe (.punct .bang) banged b)
      (typed : Behind (.punct .colon) .type d.type type)
      (initial : Behind (.punct .equal) .expression d.init init) :
      Made .declaration .variableDeclaration (some (.declarator d))
        (.node .binding n :: (b ++ (type ++ init)))
  | declarations {t l row} (word : isDeclarator t.kind)
      (items : Listed [.declaration] l.items.reverse row) :
      Made .declarations .variableStatement (some (.declarations l)) (.token t :: row)
  | field {d n marks asked q banged b type init ended row} (marked : Marks marks)
      (name : d.name = some n) (asks : Maybe (.punct .question) asked q)
      (bangs : Maybe (.punct .bang) banged b) (typed : Behind (.punct .colon) .type d.type type)
      (initial : Behind (.punct .equal) .expression d.init init)
      (semicolon : Maybe (.punct .semicolon) ended row) :
      Made .classMember .propertyDeclaration (some (.field d))
        (marks ++ .node .key n :: (q ++ (b ++ (type ++ (init ++ row)))))
  | classDeclaration {t d name types heritage interfaces o row c} (word : t.kind = .word .classWord)
      (named : Perhaps .binding d.name name)
      (dropped : Dropped types) (extended : Extends d.heritage heritage)
      (implemented : Dropped interfaces) (opens : o.kind = .punct .openBrace)
      (members : Members d.members.items.reverse row) (closes : c.kind = .punct .closeBrace) :
      Made .statement .classDeclaration (some (.classBody d))
        (.token t :: (name ++ (types ++ (heritage ++ (interfaces ++
          .token o :: (row ++ [.token c]))))))
  -- Statements.
  | block {o l row c} (opens : o.kind = .punct .openBrace)
      (statements : Statements l.items.reverse row) (closes : c.kind = .punct .closeBrace) :
      Made .block .block (some (.block l)) (.token o :: (row ++ [.token c]))
  | empty {t} (kind : t.kind = .punct .semicolon) : Made .statement .emptyStatement none [.token t]
  | expressionStatement {x ended row} (semicolon : Maybe (.punct .semicolon) ended row) :
      Made .statement .expressionStatement (some (.expressionStatement (some x)))
        (.node .expression x :: row)
  | branch {t b test yes no} (word : t.kind = .word .ifWord) (tested : Tested b.test test)
      (stated : Stated b.thenBranch yes) (otherwise : Otherwise b.elseBranch no) :
      Made .statement .ifStatement (some (.branch b)) (.token t :: (test ++ (yes ++ no)))
  | repeated {t s test b body} (word : t.kind = .word .whileWord) (tested : Tested s test)
      (stated : Stated b body) :
      Made .statement .whileStatement (some (.loop ⟨none, s, none, b⟩))
        (.token t :: (test ++ body))
  | done {t b body w s test ended row} (word : t.kind = .word .doWord) (stated : Stated b body)
      (again : w.kind = .word .whileWord) (tested : Tested s test)
      (semicolon : Maybe (.punct .semicolon) ended row) :
      Made .statement .doStatement (some (.loop ⟨none, s, none, b⟩))
        (.token t :: (body ++ .token w :: (test ++ row)))
  | counted {t awaits a o init head c test e d step u z b body}
      (word : t.kind = .word .forWord) (awaiting : Maybe (.word .awaitWord) awaits a)
      (opens : o.kind = .punct .openParen) (begins : init = none ∧ head = [] ∨ Begins init head)
      (first : c.kind = .punct .semicolon) (tests : Perhaps .expression test e)
      (second : d.kind = .punct .semicolon) (steps : Perhaps .expression step u)
      (closes : z.kind = .punct .closeParen) (stated : Stated b body) :
      Made .statement .forStatement (some (.loop ⟨init, test, step, b⟩))
        (.token t :: (a ++ .token o :: (head ++ .token c :: (e ++ .token d :: (u ++
          .token z :: body)))))
  | iterated {t awaits a o init head kind w x z b body}
      (word : t.kind = .word .forWord) (awaiting : Maybe (.word .awaitWord) awaits a)
      (opens : o.kind = .punct .openParen) (begins : Begins init head)
      (loops : Iterates kind w.kind) (closes : z.kind = .punct .closeParen)
      (stated : Stated b body) :
      Made .statement kind (some (.iteration ⟨init, some x, b⟩))
        (.token t :: (a ++ .token o :: (head ++ .token w :: .node .expression x ::
          .token z :: body)))
  | exits {t kind s value ended row} (word : Exits kind t.kind) (valued : Perhaps .expression s value)
      (semicolon : Maybe (.punct .semicolon) ended row) :
      Made .statement kind (some (.exit s)) (.token t :: (value ++ row))
  | jumps {t kind s label ended row} (word : Jumps kind t.kind)
      (labelled : Perhaps .label s label)
      (semicolon : Maybe (.punct .semicolon) ended row) :
      Made .statement kind (some (.jump s)) (.token t :: (label ++ row))
  | handler {t s caught b} (word : t.kind = .word .catchWord) (catches : Catches s caught) :
      Made .handler .catchClause (some (.handler ⟨s, some b⟩))
        (.token t :: (caught ++ [.node .block b]))
  | attempt {t b h handled f finals} (word : t.kind = .word .tryWord) (handles : Perhaps .handler h handled)
      (finalizes : Behind (.word .finallyWord) .block f finals) (either : h ≠ none ∨ f ≠ none) :
      Made .statement .tryStatement (some (.attempt ⟨some b, h, f⟩))
        (.token t :: .node .block b :: (handled ++ finals))
  | file {f row} (statements : Statements f.statements.items.reverse row) :
      Made .file .sourceFile (some (.sourceFile f)) row

end CallGuard.Phrase
