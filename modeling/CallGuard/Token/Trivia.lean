import CallGuard.Text.CharClass
import CallGuard.Token.Basic

/-! What stands between tokens: blanks, line ends and comments. -/
namespace CallGuard

/-- Where the skipping stands: between comments, in one that ends with its line, or in one that
began at the given offset and ends with its closing mark. -/
inductive TriviaMode
  | between
  | lineComment
  | blockComment (start : Nat)

/-- The place reached, whether a line end was passed, and a comment that was never closed. -/
structure Trivia where
  rest : List Char
  offset : Nat
  lineBreak : Bool
  error? : Option LexicalError

namespace Trivia

/-- Skips what separates tokens. A line end inside a comment counts as passed too. -/
def skip : TriviaMode → (lineBreak : Bool) → (offset : Nat) → List Char → Trivia
  | .blockComment start, lineBreak, offset, [] =>
    ⟨[], offset, lineBreak, some ⟨start, offset - start, .unterminatedComment⟩⟩
  | _, lineBreak, offset, [] => ⟨[], offset, lineBreak, none⟩
  | .between, lineBreak, offset, '/' :: '/' :: cs => skip .lineComment lineBreak (offset + 2) cs
  | .between, lineBreak, offset, '/' :: '*' :: cs =>
    skip (.blockComment offset) lineBreak (offset + 2) cs
  | .between, lineBreak, offset, c :: cs =>
    if isLineBreak c then skip .between true (offset + c.utf8Size) cs
    else if isBlank c then skip .between lineBreak (offset + c.utf8Size) cs
    else ⟨c :: cs, offset, lineBreak, none⟩
  | .lineComment, lineBreak, offset, c :: cs =>
    if isLineBreak c then skip .between true (offset + c.utf8Size) cs
    else skip .lineComment lineBreak (offset + c.utf8Size) cs
  | .blockComment _, lineBreak, offset, '*' :: '/' :: cs => skip .between lineBreak (offset + 2) cs
  | .blockComment start, lineBreak, offset, c :: cs =>
    skip (.blockComment start) (lineBreak || isLineBreak c) (offset + c.utf8Size) cs

theorem restLength (mode : TriviaMode) (lineBreak : Bool) (offset : Nat) (cs : List Char) :
    (skip mode lineBreak offset cs).rest.length ≤ cs.length := by
  fun_induction skip mode lineBreak offset cs <;> simp_all <;> omega

end Trivia

end CallGuard
