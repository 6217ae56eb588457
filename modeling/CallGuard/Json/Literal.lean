import CallGuard.Json.Basic
import CallGuard.Text.CharClass
import CallGuard.Text.Offset

/-! Strings as JSON writes them. -/
namespace CallGuard.Json.Literal

/-- Half of a pair of escapes for one character: the first or the second half, or neither. -/
def isLeadingHalf (n : Nat) : Bool := 0xD800 ≤ n && n < 0xDC00

def isTrailingHalf (n : Nat) : Bool := 0xDC00 ≤ n && n < 0xE000

def hexDigitValue (c : Char) : Nat :=
  if isAsciiDigit c then c.toNat - '0'.toNat
  else if 'a' ≤ c && c ≤ 'f' then c.toNat - 'a'.toNat + 10
  else c.toNat - 'A'.toNat + 10

/-- The number that four hexadecimal digits write. A text with fewer than four bytes left ends
too early, whatever they are. -/
def fourHexDigits (cs : List Char) : Except JsonStop (Nat × List Char) :=
  if Text.byteLength cs < 4 then .error .ended
  else
    let digits := cs.take 4
    if digits.all isHexDigit then
      .ok (digits.foldl (fun n c => 16 * n + hexDigitValue c) 0, cs.drop 4)
    else .error .unexpected

/-- The character of an escape other than `u`. -/
def escaped? : Char → Option Char
  | '"' => some '"'
  | '\\' => some '\\'
  | '/' => some '/'
  | 'b' => some '\x08'
  | 'f' => some '\x0c'
  | 'n' => some '\n'
  | 'r' => some '\r'
  | 't' => some '\t'
  | _ => none

/-- The second half of a pair, when an escape follows that is one. Text that ends before this is
settled ends too early. -/
def trailingHalf (cs : List Char) : Except JsonStop (Option (Nat × List Char)) :=
  match cs with
  | [] => .error .ended
  | '\\' :: [] => .error .ended
  | '\\' :: 'u' :: rest => do
    let (n, rest) ← fourHexDigits rest
    return if isTrailingHalf n then some (n, rest) else none
  | _ => .ok none

/-- A string from its first character to behind its closing quote. -/
structure StringScan where
  /-- The characters, unless an escape is half of a pair. -/
  chars? : Option (List Char)
  /-- What follows, or why the string does not end. -/
  rest : Except JsonStop (List Char)

namespace StringScan

def stopped (s : JsonStop) : StringScan := ⟨some [], .error s⟩

def cons (c : Char) (s : StringScan) : StringScan := { s with chars? := s.chars?.map (c :: ·) }

def unpaired (s : StringScan) : StringScan := { s with chars? := none }

end StringScan

/-- Reads on from within a string. -/
def stringFrom : (fuel : Nat) → List Char → StringScan
  | 0, _ => .stopped .ended
  | _ + 1, [] => .stopped .ended
  | _ + 1, '"' :: rest => ⟨some [], .ok rest⟩
  | _ + 1, '\\' :: [] => .stopped .ended
  | fuel + 1, '\\' :: 'u' :: rest =>
    match fourHexDigits rest with
    | .error s => .stopped s
    | .ok (n, rest) =>
      if isLeadingHalf n then
        match trailingHalf rest with
        | .ok (some (m, rest)) =>
          (stringFrom fuel rest).cons (Char.ofNat (0x10000 + (n - 0xD800) * 0x400 + (m - 0xDC00)))
        | .ok none => (stringFrom fuel rest).unpaired
        | .error .unexpected => (stringFrom fuel rest).unpaired
        | .error s => .stopped s
      else if isTrailingHalf n then (stringFrom fuel rest).unpaired
      else (stringFrom fuel rest).cons (Char.ofNat n)
  | fuel + 1, '\\' :: e :: rest =>
    match escaped? e with
    | some c => (stringFrom fuel rest).cons c
    | none => .stopped .unexpected
  | fuel + 1, c :: rest =>
    if c.toNat < 0x20 then .stopped .unexpected else (stringFrom fuel rest).cons c

/-- Reads a string from behind its opening quote. -/
def string (cs : List Char) : StringScan := stringFrom (cs.length + 1) cs

def hexDigit (n : Nat) : Char := "0123456789abcdef".toList.getD n '0'

/-- A character as it stands in a string: only quotes, backslashes and control characters need an
escape. -/
def quoteChar (c : Char) : List Char :=
  match c with
  | '"' => ['\\', '"']
  | '\\' => ['\\', '\\']
  | '\x08' => ['\\', 'b']
  | '\x0c' => ['\\', 'f']
  | '\n' => ['\\', 'n']
  | '\r' => ['\\', 'r']
  | '\t' => ['\\', 't']
  | c =>
    if c.toNat < 0x20 then ['\\', 'u', '0', '0', hexDigit (c.toNat / 16), hexDigit (c.toNat % 16)]
    else [c]

/-- A text as a string with its quotes. -/
def quote (s : String) : List Char := '"' :: (s.toList.flatMap quoteChar ++ ['"'])

end CallGuard.Json.Literal
