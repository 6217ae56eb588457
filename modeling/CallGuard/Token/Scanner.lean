import CallGuard.Token.Scan

/-! Reading tokens one at a time, with marks to come back to. -/
namespace CallGuard

/-- The token read last, the faults met so far and the text still to be read, which begins where
that token stops. -/
structure Scanner where
  token : Token
  errors : List LexicalError
  rest : List Char

/-- A place to come back to: the token there, the text behind it and how many faults had been
met. -/
structure Scanner.Mark where
  token : Token
  errorCount : Nat
  rest : List Char

namespace Scanner

def ofText (text : List Char) : Scanner := ⟨.initial, [], text⟩

def advance (s : Scanner) : Scanner :=
  let next := Scan.next s.token.stop s.rest
  ⟨next.token, s.errors ++ next.error?.toList, next.rest⟩

def mark (s : Scanner) : Mark := ⟨s.token, s.errors.length, s.rest⟩

/-- Goes back to a mark. Of the faults met so far, the first ones stay: as many as there were at
the mark. -/
def restore (s : Scanner) (m : Mark) : Scanner := ⟨m.token, s.errors.take m.errorCount, m.rest⟩

end Scanner

end CallGuard
