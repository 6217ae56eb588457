import CallGuard.Text.Offset
import CallGuard.Token.Kind

/-! A token: a kind, the piece of text it stands for and the cooked text of that piece. -/
namespace CallGuard

/-- What can be wrong with a single token. -/
inductive LexicalFault
  | unterminatedString | unterminatedTemplate | unterminatedComment | invalidCharacter
  deriving DecidableEq, Repr

def LexicalFault.message : LexicalFault → String
  | .unterminatedString => "Unterminated string literal."
  | .unterminatedTemplate => "Unterminated template literal."
  | .unterminatedComment => "'*/' expected."
  | .invalidCharacter => "Invalid character."

structure LexicalError where
  start : Nat
  length : Nat
  fault : LexicalFault
  deriving DecidableEq, Repr

/-- `fullStart` is where the blanks and comments before the token begin, `start` and `stop` are
the ends of the token itself. `value` is the name, the digits, or the characters a literal stands
for; it is empty for punctuators. -/
structure Token where
  kind : TokenKind
  fullStart : Nat
  start : Nat
  stop : Nat
  value : String
  afterLineBreak : Bool
  deriving DecidableEq, Repr

namespace Token

/-- The token that stands before the first one. -/
def initial : Token := ⟨.unknown, 0, 0, 0, "", false⟩

def isEnd (t : Token) : Bool := t.kind == .endOfFile

end Token

end CallGuard
