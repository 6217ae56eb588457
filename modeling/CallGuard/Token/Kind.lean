/-! The kinds of token: punctuators, reserved words, literals and names. The order of the
constructors fixes the number of each kind. -/
namespace CallGuard

/-- Marks made of punctuation. `>>` is not among them, so that nested type arguments close. -/
inductive Punctuator
  | openBrace | closeBrace | openParen | closeParen | openBracket | closeBracket | dot | ellipsis
  | semicolon | comma | questionDot | less | greater | lessEqual | greaterEqual | equalEqual
  | equalEqualEqual | bangEqual | bangEqualEqual | arrow | plus | minus | asterisk | slash
  | percent | plusPlus | minusMinus | ampersand | bar | caret | bang | tilde | ampersandAmpersand
  | barBar | question | questionQuestion | colon | atSign | equal | plusEqual | minusEqual
  | asteriskEqual | slashEqual | questionQuestionEqual
  deriving DecidableEq, Repr

/-- Words that cannot serve as plain names. -/
inductive Keyword
  | awaitWord | breakWord | catchWord | classWord | constWord | continueWord | doWord | elseWord
  | extendsWord | falseWord | finallyWord | forWord | functionWord | ifWord | instanceofWord
  | inWord | letWord | newWord | nullWord | returnWord | superWord | thisWord | throwWord
  | trueWord | tryWord | typeofWord | varWord | voidWord | whileWord | yieldWord
  deriving DecidableEq, Repr

inductive TokenKind
  | unknown | endOfFile | numericLiteral | stringLiteral | templateLiteral | identifier
  | punct (p : Punctuator)
  | word (w : Keyword)
  deriving DecidableEq, Repr

namespace Punctuator

def all : List Punctuator :=
  [.openBrace, .closeBrace, .openParen, .closeParen, .openBracket, .closeBracket, .dot,
   .ellipsis, .semicolon, .comma, .questionDot, .less, .greater, .lessEqual, .greaterEqual,
   .equalEqual, .equalEqualEqual, .bangEqual, .bangEqualEqual, .arrow, .plus, .minus, .asterisk,
   .slash, .percent, .plusPlus, .minusMinus, .ampersand, .bar, .caret, .bang, .tilde,
   .ampersandAmpersand, .barBar, .question, .questionQuestion, .colon, .atSign, .equal,
   .plusEqual, .minusEqual, .asteriskEqual, .slashEqual, .questionQuestionEqual]

/-- The text of a punctuator in a source file. -/
def spelling : Punctuator → String
  | .openBrace => "\x7b"
  | .closeBrace => "\x7d"
  | .openParen => "("
  | .closeParen => ")"
  | .openBracket => "["
  | .closeBracket => "]"
  | .dot => "."
  | .ellipsis => "..."
  | .semicolon => ";"
  | .comma => ","
  | .questionDot => "?."
  | .less => "<"
  | .greater => ">"
  | .lessEqual => "<="
  | .greaterEqual => ">="
  | .equalEqual => "=="
  | .equalEqualEqual => "==="
  | .bangEqual => "!="
  | .bangEqualEqual => "!=="
  | .arrow => "=>"
  | .plus => "+"
  | .minus => "-"
  | .asterisk => "*"
  | .slash => "/"
  | .percent => "%"
  | .plusPlus => "++"
  | .minusMinus => "--"
  | .ampersand => "&"
  | .bar => "|"
  | .caret => "^"
  | .bang => "!"
  | .tilde => "~"
  | .ampersandAmpersand => "&&"
  | .barBar => "||"
  | .question => "?"
  | .questionQuestion => "??"
  | .colon => ":"
  | .atSign => "@"
  | .equal => "="
  | .plusEqual => "+="
  | .minusEqual => "-="
  | .asteriskEqual => "*="
  | .slashEqual => "/="
  | .questionQuestionEqual => "??="

/-- The name of a punctuator's kind. -/
def name : Punctuator → String
  | .openBrace => "OpenBraceToken"
  | .closeBrace => "CloseBraceToken"
  | .openParen => "OpenParenToken"
  | .closeParen => "CloseParenToken"
  | .openBracket => "OpenBracketToken"
  | .closeBracket => "CloseBracketToken"
  | .dot => "DotToken"
  | .ellipsis => "DotDotDotToken"
  | .semicolon => "SemicolonToken"
  | .comma => "CommaToken"
  | .questionDot => "QuestionDotToken"
  | .less => "LessThanToken"
  | .greater => "GreaterThanToken"
  | .lessEqual => "LessThanEqualsToken"
  | .greaterEqual => "GreaterThanEqualsToken"
  | .equalEqual => "EqualsEqualsToken"
  | .equalEqualEqual => "EqualsEqualsEqualsToken"
  | .bangEqual => "ExclamationEqualsToken"
  | .bangEqualEqual => "ExclamationEqualsEqualsToken"
  | .arrow => "EqualsGreaterThanToken"
  | .plus => "PlusToken"
  | .minus => "MinusToken"
  | .asterisk => "AsteriskToken"
  | .slash => "SlashToken"
  | .percent => "PercentToken"
  | .plusPlus => "PlusPlusToken"
  | .minusMinus => "MinusMinusToken"
  | .ampersand => "AmpersandToken"
  | .bar => "BarToken"
  | .caret => "CaretToken"
  | .bang => "ExclamationToken"
  | .tilde => "TildeToken"
  | .ampersandAmpersand => "AmpersandAmpersandToken"
  | .barBar => "BarBarToken"
  | .question => "QuestionToken"
  | .questionQuestion => "QuestionQuestionToken"
  | .colon => "ColonToken"
  | .atSign => "AtToken"
  | .equal => "EqualsToken"
  | .plusEqual => "PlusEqualsToken"
  | .minusEqual => "MinusEqualsToken"
  | .asteriskEqual => "AsteriskEqualsToken"
  | .slashEqual => "SlashEqualsToken"
  | .questionQuestionEqual => "QuestionQuestionEqualsToken"

/-- The bytes that a punctuator takes; all of them are ASCII. -/
def width (p : Punctuator) : Nat := p.spelling.length

theorem widthPositive (p : Punctuator) : 0 < p.width := by cases p <;> decide

/-- `=` and the operators that end in it and assign. -/
def isAssignment : Punctuator → Bool
  | .equal | .plusEqual | .minusEqual | .asteriskEqual | .slashEqual | .questionQuestionEqual => true
  | _ => false

end Punctuator

namespace Keyword

def all : List Keyword :=
  [.awaitWord, .breakWord, .catchWord, .classWord, .constWord, .continueWord, .doWord,
   .elseWord, .extendsWord, .falseWord, .finallyWord, .forWord, .functionWord, .ifWord,
   .instanceofWord, .inWord, .letWord, .newWord, .nullWord, .returnWord, .superWord, .thisWord,
   .throwWord, .trueWord, .tryWord, .typeofWord, .varWord, .voidWord, .whileWord, .yieldWord]

def spelling : Keyword → String
  | .awaitWord => "await"
  | .breakWord => "break"
  | .catchWord => "catch"
  | .classWord => "class"
  | .constWord => "const"
  | .continueWord => "continue"
  | .doWord => "do"
  | .elseWord => "else"
  | .extendsWord => "extends"
  | .falseWord => "false"
  | .finallyWord => "finally"
  | .forWord => "for"
  | .functionWord => "function"
  | .ifWord => "if"
  | .instanceofWord => "instanceof"
  | .inWord => "in"
  | .letWord => "let"
  | .newWord => "new"
  | .nullWord => "null"
  | .returnWord => "return"
  | .superWord => "super"
  | .thisWord => "this"
  | .throwWord => "throw"
  | .trueWord => "true"
  | .tryWord => "try"
  | .typeofWord => "typeof"
  | .varWord => "var"
  | .voidWord => "void"
  | .whileWord => "while"
  | .yieldWord => "yield"

/-- The name of a reserved word's kind. -/
def name : Keyword → String
  | .awaitWord => "AwaitKeyword"
  | .breakWord => "BreakKeyword"
  | .catchWord => "CatchKeyword"
  | .classWord => "ClassKeyword"
  | .constWord => "ConstKeyword"
  | .continueWord => "ContinueKeyword"
  | .doWord => "DoKeyword"
  | .elseWord => "ElseKeyword"
  | .extendsWord => "ExtendsKeyword"
  | .falseWord => "FalseKeyword"
  | .finallyWord => "FinallyKeyword"
  | .forWord => "ForKeyword"
  | .functionWord => "FunctionKeyword"
  | .ifWord => "IfKeyword"
  | .instanceofWord => "InstanceOfKeyword"
  | .inWord => "InKeyword"
  | .letWord => "LetKeyword"
  | .newWord => "NewKeyword"
  | .nullWord => "NullKeyword"
  | .returnWord => "ReturnKeyword"
  | .superWord => "SuperKeyword"
  | .thisWord => "ThisKeyword"
  | .throwWord => "ThrowKeyword"
  | .trueWord => "TrueKeyword"
  | .tryWord => "TryKeyword"
  | .typeofWord => "TypeOfKeyword"
  | .varWord => "VarKeyword"
  | .voidWord => "VoidKeyword"
  | .whileWord => "WhileKeyword"
  | .yieldWord => "YieldKeyword"

def ofSpelling? (s : String) : Option Keyword := all.find? (·.spelling == s)

end Keyword

namespace TokenKind

/-- Every kind in the order of its number. -/
def all : List TokenKind :=
  [.unknown, .endOfFile, .numericLiteral, .stringLiteral, .templateLiteral, .identifier] ++
    Punctuator.all.map .punct ++ Keyword.all.map .word

def code (k : TokenKind) : Nat := all.idxOf k

def ofCode? (n : Nat) : Option TokenKind := all[n]?

def name : TokenKind → String
  | .unknown => "Unknown"
  | .endOfFile => "EndOfFileToken"
  | .numericLiteral => "NumericLiteral"
  | .stringLiteral => "StringLiteral"
  | .templateLiteral => "NoSubstitutionTemplateLiteral"
  | .identifier => "Identifier"
  | .punct p => p.name
  | .word w => w.name

/-- How a message speaks of a token of this kind. -/
def text : TokenKind → String
  | .unknown => "unknown token"
  | .endOfFile => "end of file"
  | .numericLiteral | .stringLiteral | .templateLiteral => "literal"
  | .identifier => "identifier"
  | .punct p => p.spelling
  | .word w => w.spelling

def isKeyword : TokenKind → Bool
  | .word _ => true
  | _ => false

/-- Names and reserved words alike may follow a dot. -/
def isNameLike : TokenKind → Bool
  | .identifier | .word _ => true
  | _ => false

def isAssignment : TokenKind → Bool
  | .punct p => p.isAssignment
  | _ => false

end TokenKind

end CallGuard
