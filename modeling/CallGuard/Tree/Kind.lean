import CallGuard.Token.Kind

/-! The kinds of node: a single token, or one of the constructs of the scanned language. Tokens
and constructs share one numbering. -/
namespace CallGuard

inductive NodeKind
  | token (t : TokenKind)
  | sourceFile | typeReference | parameter | functionDeclaration | functionExpression
  | arrowFunction | classDeclaration | propertyDeclaration | methodDeclaration
  | constructorDeclaration | variableDeclaration | block | variableStatement | expressionStatement
  | ifStatement | doStatement | whileStatement | forStatement | forOfStatement | forInStatement
  | continueStatement | breakStatement | returnStatement | throwStatement | tryStatement
  | emptyStatement | catchClause | callExpression | newExpression | propertyAccess | elementAccess
  | binaryExpression | prefixUnary | postfixUnary | conditionalExpression | parenthesized
  | awaitExpression | yieldExpression | spreadElement | nonNull | arrayLiteral | objectLiteral
  | propertyAssignment | shorthandAssignment | computedName | omittedExpression
  | unassigned (code : Nat)
  deriving DecidableEq, Repr

namespace NodeKind

/-- Each construct with its number and its name. -/
def constructs : List (NodeKind × Nat × String) :=
  [(.sourceFile, 80, "SourceFile"),
   (.typeReference, 81, "TypeReference"),
   (.parameter, 82, "Parameter"),
   (.functionDeclaration, 83, "FunctionDeclaration"),
   (.functionExpression, 84, "FunctionExpression"),
   (.arrowFunction, 85, "ArrowFunction"),
   (.classDeclaration, 86, "ClassDeclaration"),
   (.propertyDeclaration, 87, "PropertyDeclaration"),
   (.methodDeclaration, 88, "MethodDeclaration"),
   (.constructorDeclaration, 89, "Constructor"),
   (.variableDeclaration, 90, "VariableDeclaration"),
   (.block, 100, "Block"),
   (.variableStatement, 101, "VariableStatement"),
   (.expressionStatement, 102, "ExpressionStatement"),
   (.ifStatement, 103, "IfStatement"),
   (.doStatement, 104, "DoStatement"),
   (.whileStatement, 105, "WhileStatement"),
   (.forStatement, 106, "ForStatement"),
   (.forOfStatement, 107, "ForOfStatement"),
   (.forInStatement, 108, "ForInStatement"),
   (.continueStatement, 109, "ContinueStatement"),
   (.breakStatement, 110, "BreakStatement"),
   (.returnStatement, 111, "ReturnStatement"),
   (.throwStatement, 112, "ThrowStatement"),
   (.tryStatement, 113, "TryStatement"),
   (.emptyStatement, 114, "EmptyStatement"),
   (.catchClause, 115, "CatchClause"),
   (.callExpression, 130, "CallExpression"),
   (.newExpression, 131, "NewExpression"),
   (.propertyAccess, 132, "PropertyAccessExpression"),
   (.elementAccess, 133, "ElementAccessExpression"),
   (.binaryExpression, 134, "BinaryExpression"),
   (.prefixUnary, 135, "PrefixUnaryExpression"),
   (.postfixUnary, 136, "PostfixUnaryExpression"),
   (.conditionalExpression, 137, "ConditionalExpression"),
   (.parenthesized, 138, "ParenthesizedExpression"),
   (.awaitExpression, 139, "AwaitExpression"),
   (.yieldExpression, 140, "YieldExpression"),
   (.spreadElement, 141, "SpreadElement"),
   (.nonNull, 142, "NonNullExpression"),
   (.arrayLiteral, 143, "ArrayLiteralExpression"),
   (.objectLiteral, 144, "ObjectLiteralExpression"),
   (.propertyAssignment, 145, "PropertyAssignment"),
   (.shorthandAssignment, 146, "ShorthandPropertyAssignment"),
   (.computedName, 147, "ComputedPropertyName"),
   (.omittedExpression, 148, "OmittedExpression")]

def code (k : NodeKind) : Nat :=
  match k with
  | .token t => t.code
  | .unassigned n => n
  | k => ((constructs.lookup k).map (·.1)).getD 0

def ofCode (n : Nat) : NodeKind :=
  match TokenKind.ofCode? n with
  | some t => .token t
  | none =>
    match constructs.find? (·.2.1 == n) with
    | some (k, _) => k
    | none => .unassigned n

/-- Only the tokens that stand alone as expressions have names of their own. -/
def name (k : NodeKind) : String :=
  match k with
  | .token .identifier => "Identifier"
  | .token .stringLiteral => "StringLiteral"
  | .token .numericLiteral => "NumericLiteral"
  | .token .templateLiteral => "TemplateLiteral"
  | .token (.word .thisWord) => "ThisKeyword"
  | .token (.word .superWord) => "SuperKeyword"
  | .token (.word .trueWord) => "TrueKeyword"
  | .token (.word .falseWord) => "FalseKeyword"
  | .token (.word .nullWord) => "NullKeyword"
  | .token _ => "Token"
  | k => ((constructs.lookup k).map (·.2)).getD "Unknown"

/-- Functions of every form, methods and constructors among them. -/
def isFunctionLike : NodeKind → Bool
  | .functionDeclaration | .functionExpression | .arrowFunction | .methodDeclaration
  | .constructorDeclaration => true
  | _ => false

/-- Functions that are expressions and so can be handed to a call. -/
def isFunctionLiteral : NodeKind → Bool
  | .functionExpression | .arrowFunction => true
  | _ => false

def isStatement : NodeKind → Bool
  | .block | .variableStatement | .expressionStatement | .ifStatement | .doStatement
  | .whileStatement | .forStatement | .forOfStatement | .forInStatement | .continueStatement
  | .breakStatement | .returnStatement | .throwStatement | .tryStatement | .emptyStatement
  | .functionDeclaration | .classDeclaration => true
  | _ => false

def isCall : NodeKind → Bool
  | .callExpression | .newExpression => true
  | _ => false

end NodeKind

end CallGuard
