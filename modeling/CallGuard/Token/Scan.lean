import CallGuard.Token.Literal
import CallGuard.Token.Trivia

/-! Reading one token, and reading a whole text as its sequence of tokens. The longest punctuator
wins, but `?.` before a digit is a question mark and a number. -/
namespace CallGuard

def Punctuator.ofStart? : List Char → Option Punctuator
  | '{' :: _ => some .openBrace
  | '}' :: _ => some .closeBrace
  | '(' :: _ => some .openParen
  | ')' :: _ => some .closeParen
  | '[' :: _ => some .openBracket
  | ']' :: _ => some .closeBracket
  | ';' :: _ => some .semicolon
  | ',' :: _ => some .comma
  | ':' :: _ => some .colon
  | '~' :: _ => some .tilde
  | '^' :: _ => some .caret
  | '@' :: _ => some .atSign
  | '%' :: _ => some .percent
  | '.' :: '.' :: '.' :: _ => some .ellipsis
  | '.' :: _ => some .dot
  | '?' :: '.' :: cs => if cs.head?.any isAsciiDigit then some .question else some .questionDot
  | '?' :: '?' :: '=' :: _ => some .questionQuestionEqual
  | '?' :: '?' :: _ => some .questionQuestion
  | '?' :: _ => some .question
  | '<' :: '=' :: _ => some .lessEqual
  | '<' :: _ => some .less
  | '>' :: '=' :: _ => some .greaterEqual
  | '>' :: _ => some .greater
  | '=' :: '=' :: '=' :: _ => some .equalEqualEqual
  | '=' :: '=' :: _ => some .equalEqual
  | '=' :: '>' :: _ => some .arrow
  | '=' :: _ => some .equal
  | '!' :: '=' :: '=' :: _ => some .bangEqualEqual
  | '!' :: '=' :: _ => some .bangEqual
  | '!' :: _ => some .bang
  | '+' :: '+' :: _ => some .plusPlus
  | '+' :: '=' :: _ => some .plusEqual
  | '+' :: _ => some .plus
  | '-' :: '-' :: _ => some .minusMinus
  | '-' :: '=' :: _ => some .minusEqual
  | '-' :: _ => some .minus
  | '*' :: '=' :: _ => some .asteriskEqual
  | '*' :: _ => some .asterisk
  | '/' :: '=' :: _ => some .slashEqual
  | '/' :: _ => some .slash
  | '&' :: '&' :: _ => some .ampersandAmpersand
  | '&' :: _ => some .ampersand
  | '|' :: '|' :: _ => some .barBar
  | '|' :: _ => some .bar
  | _ => none

/-- A token without its surroundings: its kind and value, where it stops, what follows it and
what is wrong with it. -/
structure Lexeme where
  kind : TokenKind
  value : List Char
  stop : Nat
  rest : List Char
  error? : Option LexicalError

namespace Lexeme

def ofWord (start : Nat) (cs : List Char) : Lexeme :=
  let text := cs.takeWhile isWordPart
  let kind := match Keyword.ofSpelling? (String.ofList text) with
    | some w => .word w
    | none => .identifier
  ⟨kind, text, start + Text.byteLength text, cs.dropWhile isWordPart, none⟩

def ofNumber (start : Nat) (cs : List Char) : Lexeme :=
  let (text, rest) := Number.split cs
  ⟨.numericLiteral, text, start + Text.byteLength text, rest, none⟩

def ofQuoted (kind : TokenKind) (fault : LexicalFault) (start : Nat) (q : Quoted) : Lexeme :=
  ⟨kind, q.value, q.stop, q.rest, if q.closed then none else some ⟨start, q.stop - start, fault⟩⟩

/-- Whether a number begins here. -/
def startsNumber : List Char → Bool
  | '.' :: d :: _ => isAsciiDigit d
  | c :: _ => isAsciiDigit c
  | [] => false

/-- The token that begins with the first character. -/
def read (start : Nat) (c : Char) (cs : List Char) : Lexeme :=
  if isWordStart c then ofWord start (c :: cs)
  else if startsNumber (c :: cs) then ofNumber start (c :: cs)
  else if c == '"' || c == '\'' then
    ofQuoted .stringLiteral .unterminatedString start (.string c (start + 1) cs)
  else if c == '\x60' then
    ofQuoted .templateLiteral .unterminatedTemplate start (.template 0 (start + 1) cs)
  else match Punctuator.ofStart? (c :: cs) with
    | some p => ⟨.punct p, [], start + p.width, cs.drop (p.width - 1), none⟩
    | none =>
      ⟨.unknown, [], start + c.utf8Size, cs, some ⟨start, c.utf8Size, .invalidCharacter⟩⟩

theorem dropWhileLength (p : Char → Bool) (cs : List Char) :
    (cs.dropWhile p).length ≤ cs.length := (List.dropWhile_sublist p).length_le

theorem ofNumberShorter {start : Nat} {cs : List Char} (h : startsNumber cs = true) :
    (ofNumber start cs).rest.length < cs.length := by
  have whole := congrArg List.length (Number.splitAppend cs)
  simp only [List.length_append] at whole
  suffices (Number.split cs).1 ≠ [] by
    have := List.length_pos_iff.2 this
    simp only [ofNumber]
    omega
  intro none
  unfold Number.split at none
  cases marked : Number.radixMark? cs with
  | some m =>
    rw [marked] at none
    have := Number.radixMarkAppend marked
    unfold Number.radixMark? at marked
    split at marked
    · split at marked
      · cases marked; simp at none
      · contradiction
    · contradiction
  | none =>
    rw [marked] at none
    simp only [List.append_eq_nil_iff] at none
    obtain ⟨⟨⟨whole, part⟩, -⟩, -⟩ := none
    match cs, h with
    | [], h => simp [startsNumber] at h
    | c :: cs, h =>
      by_cases digit : isAsciiDigit c = true
      · simp [Number.takeRun, digit] at whole
      · by_cases point : c = '.'
        · subst point
          match cs, h with
          | [], h => simp [startsNumber, isAsciiDigit] at h
          | d :: cs, h =>
            have run : Number.takeRun (fun c => isAsciiDigit c || c == '_') ('.' :: d :: cs) =
                ([], '.' :: d :: cs) := by simp [Number.takeRun, isAsciiDigit]
            rw [run] at part
            simp only [startsNumber] at h
            simp [Number.fraction, h] at part
        · unfold startsNumber at h
          split at h <;> simp_all

theorem readRestLength (start : Nat) (c : Char) (cs : List Char) :
    (read start c cs).rest.length ≤ cs.length := by
  unfold read
  split
  · rename_i h
    have := dropWhileLength isWordPart cs
    simpa [ofWord, List.dropWhile, wordStartPart h] using this
  · split
    · rename_i h
      have : (ofNumber start (c :: cs)).rest.length < (c :: cs).length :=
        ofNumberShorter h
      simp only [List.length_cons] at this
      omega
    · split
      · exact Quoted.stringRestLength _ _ _
      · split
        · exact Quoted.templateRestLength _ _ _
        · split <;> simp

end Lexeme

/-- A token that was read, its fault if it has one, and the text after it. -/
structure Scan where
  token : Token
  error? : Option LexicalError
  rest : List Char

namespace Scan

/-- The token behind a gap that began at an offset. -/
def afterGap (offset : Nat) (gap : Trivia) : Scan :=
  match gap.rest with
  | [] => ⟨⟨.endOfFile, offset, gap.offset, gap.offset, "", gap.lineBreak⟩, gap.error?, []⟩
  | c :: cs =>
    let lexeme := Lexeme.read gap.offset c cs
    ⟨⟨lexeme.kind, offset, gap.offset, lexeme.stop, String.ofList lexeme.value, gap.lineBreak⟩,
      gap.error? <|> lexeme.error?, lexeme.rest⟩

/-- Reads the next token of a text that begins at an offset. At the end of the text it answers
the end token, as often as it is asked. -/
def next (offset : Nat) (text : List Char) : Scan :=
  afterGap offset (Trivia.skip .between false offset text)

theorem endOrShorter (offset : Nat) (text : List Char) :
    (next offset text).token.isEnd = true ∨ (next offset text).rest.length < text.length := by
  have shorter := Trivia.restLength .between false offset text
  unfold next
  generalize Trivia.skip .between false offset text = gap at shorter
  unfold afterGap
  split
  · simp [Token.isEnd]
  · rename_i c cs rest
    rw [rest, List.length_cons] at shorter
    exact .inr (Nat.lt_of_le_of_lt (Lexeme.readRestLength gap.offset c cs) (by omega))

/-- All tokens of a text from an offset on. The last one is the end token. -/
def all (offset : Nat) (text : List Char) : List Scan :=
  let s := next offset text
  if h : s.token.isEnd = true then [s]
  else
    have _shorter := (endOrShorter offset text).resolve_left h
    s :: all s.token.stop s.rest
termination_by text.length

/-- The tokens of a whole text. -/
def ofText (text : List Char) : List Scan := all 0 text

end Scan

end CallGuard
