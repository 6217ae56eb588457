import CallGuard.Text.Template
import CallGuard.Token.Basic

/-! What can be wrong with a text as a program. Reading always goes on after a fault. -/
namespace CallGuard

inductive SyntaxFault
  | identifierExpected
  | tokenExpected (k : TokenKind)
  | unexpectedToken
  | expressionExpected
  | statementExpected
  | nestedTooDeeply
  | lexical (f : LexicalFault)
  deriving DecidableEq, Repr

namespace SyntaxFault

def code : SyntaxFault → Nat
  | .identifierExpected => 1003
  | .tokenExpected _ => 1005
  | .unexpectedToken => 1012
  | .expressionExpected => 1109
  | .statementExpected => 1128
  | .nestedTooDeeply => 1440
  | .lexical .unterminatedString => 1002
  | .lexical .unterminatedTemplate => 1160
  | .lexical .unterminatedComment => 1010
  | .lexical .invalidCharacter => 1012

def message : SyntaxFault → String
  | .identifierExpected => "Identifier expected."
  | .tokenExpected k => Template.fill "'\x7b0\x7d' expected." [k.text]
  | .unexpectedToken => "Unexpected token."
  | .expressionExpected => "Expression expected."
  | .statementExpected => "Declaration or statement expected."
  | .nestedTooDeeply => "Maximum nesting depth exceeded."
  | .lexical f => f.message

end SyntaxFault

structure SyntaxError where
  start : Nat
  length : Nat
  fault : SyntaxFault
  deriving DecidableEq, Repr

def LexicalError.toSyntaxError (e : LexicalError) : SyntaxError :=
  ⟨e.start, e.length, .lexical e.fault⟩

end CallGuard
