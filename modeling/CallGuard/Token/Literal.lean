import CallGuard.Text.CharClass
import CallGuard.Token.Basic

/-! Numbers, quoted strings and templates. -/
namespace CallGuard

namespace Number

/-- The digits of a number and what follows them. -/
abbrev Split := List Char × List Char

def takeRun (p : Char → Bool) (cs : List Char) : Split := (cs.takeWhile p, cs.dropWhile p)

/-- `0x`, `0b` or `0o` in either case. The digits after it are any hexadecimal ones. -/
def radixMark? : List Char → Option Split
  | '0' :: c :: cs =>
    if c == 'x' || c == 'X' || c == 'b' || c == 'B' || c == 'o' || c == 'O' then
      some (['0', c], cs)
    else none
  | _ => none

/-- A point counts only with a digit behind it. -/
def fraction : List Char → Split
  | '.' :: d :: cs =>
    if isAsciiDigit d then
      let (digits, rest) := takeRun isAsciiDigit (d :: cs)
      ('.' :: digits, rest)
    else ([], '.' :: d :: cs)
  | cs => ([], cs)

def sign : List Char → Split
  | '+' :: cs => (['+'], cs)
  | '-' :: cs => (['-'], cs)
  | cs => ([], cs)

/-- An exponent counts only with a digit behind its mark and sign. -/
def exponent : List Char → Split
  | [] => ([], [])
  | e :: cs =>
    if e == 'e' || e == 'E' then
      let (sgn, after) := sign cs
      let (digits, rest) := takeRun isAsciiDigit after
      if digits.isEmpty then ([], e :: cs) else (e :: sgn ++ digits, rest)
    else ([], e :: cs)

def bigSuffix : List Char → Split
  | 'n' :: cs => (['n'], cs)
  | cs => ([], cs)

/-- Splits the number off a text that begins with a digit, or with a point and a digit. -/
def split (cs : List Char) : Split :=
  let (body, rest) :=
    match radixMark? cs with
    | some (mark, after) =>
      let (digits, rest) := takeRun (fun c => isHexDigit c || c == '_') after
      (mark ++ digits, rest)
    | none =>
      let (whole, r₁) := takeRun (fun c => isAsciiDigit c || c == '_') cs
      let (part, r₂) := fraction r₁
      let (power, r₃) := exponent r₂
      (whole ++ part ++ power, r₃)
  let (suffix, rest) := bigSuffix rest
  (body ++ suffix, rest)

theorem takeRunAppend (p : Char → Bool) (cs : List Char) :
    (takeRun p cs).1 ++ (takeRun p cs).2 = cs := List.takeWhile_append_dropWhile

theorem fractionAppend (cs : List Char) : (fraction cs).1 ++ (fraction cs).2 = cs := by
  unfold fraction
  split
  · split
    · simpa using takeRunAppend isAsciiDigit _
    · rfl
  · rfl

theorem signAppend (cs : List Char) : (sign cs).1 ++ (sign cs).2 = cs := by
  unfold sign; split <;> rfl

theorem exponentAppend (cs : List Char) : (exponent cs).1 ++ (exponent cs).2 = cs := by
  unfold exponent
  split
  · rfl
  · rename_i e cs
    by_cases mark : (e == 'e' || e == 'E') = true
    · by_cases none : (takeRun isAsciiDigit (sign cs).2).1.isEmpty = true
      · simp [mark, none]
      · simp only [mark, if_true, none, if_false, Bool.false_eq_true, List.cons_append,
          List.append_assoc, takeRunAppend, signAppend]
    · simp [mark]

theorem bigSuffixAppend (cs : List Char) : (bigSuffix cs).1 ++ (bigSuffix cs).2 = cs := by
  unfold bigSuffix; split <;> rfl

theorem radixMarkAppend {cs mark after : List Char} (h : radixMark? cs = some (mark, after)) :
    mark ++ after = cs := by
  unfold radixMark? at h
  split at h
  · split at h
    · cases h; rfl
    · contradiction
  · contradiction

/-- Nothing is lost: the number and what follows it are the text. -/
theorem splitAppend (cs : List Char) : (split cs).1 ++ (split cs).2 = cs := by
  unfold split
  cases marked : radixMark? cs with
  | some m =>
    simp only [List.append_assoc, bigSuffixAppend, takeRunAppend]
    exact radixMarkAppend marked
  | none =>
    simp only [List.append_assoc, bigSuffixAppend, exponentAppend, fractionAppend,
      takeRunAppend]

end Number

/-- What a quoted body stands for, the offset and text after it, and whether it was closed. -/
structure Quoted where
  value : List Char
  stop : Nat
  rest : List Char
  closed : Bool

namespace Quoted

/-- What the character behind a backslash stands for. Line ends stand for nothing. -/
def cook : Char → List Char
  | 'n' => ['\n']
  | 't' => ['\t']
  | 'r' => ['\r']
  | '0' => ['\x00']
  | 'b' => ['\x08']
  | 'f' => ['\x0c']
  | 'v' => ['\x0b']
  | '\r' | '\n' => []
  | c => [c]

def put (cooked : List Char) (q : Quoted) : Quoted := { q with value := cooked ++ q.value }

@[simp] theorem restPut (cooked : List Char) (q : Quoted) : (q.put cooked).rest = q.rest := rfl

/-- The body of a string after its opening quote. It ends at the same quote, and unclosed before
a line end or at the end of the text. -/
def string (quote : Char) : (offset : Nat) → List Char → Quoted
  | offset, [] => ⟨[], offset, [], false⟩
  | offset, c :: cs =>
    if c == quote then ⟨[], offset + 1, cs, true⟩
    else if isLineBreak c then ⟨[], offset, c :: cs, false⟩
    else if c == '\\' then
      match cs with
      | [] => ⟨[], offset + 1, [], false⟩
      | '\r' :: '\n' :: cs => string quote (offset + 3) cs
      | e :: cs => (string quote (offset + 1 + e.utf8Size) cs).put (cook e)
    else (string quote (offset + c.utf8Size) cs).put [c]

theorem stringRestLength (quote : Char) (offset : Nat) (cs : List Char) :
    (string quote offset cs).rest.length ≤ cs.length := by
  fun_induction string quote offset cs <;> simp_all <;> omega

/-- The body of a template after its opening mark. Substitutions are not read as code: braces are
counted until the one that opened the substitution is closed. An escape counts towards the value
wherever it stands. -/
def template : (depth : Nat) → (offset : Nat) → List Char → Quoted
  | _, offset, [] => ⟨[], offset, [], false⟩
  | depth, offset, c :: cs =>
    if c == '\x60' && depth == 0 then ⟨[], offset + 1, cs, true⟩
    else if c == '\\' then
      match cs with
      | [] => ⟨[], offset + 1, [], false⟩
      | '\r' :: '\n' :: cs => template depth (offset + 3) cs
      | e :: cs => (template depth (offset + 1 + e.utf8Size) cs).put (cook e)
    else if depth == 0 then
      match c, cs with
      | '$', '{' :: cs => template 1 (offset + 2) cs
      | c, cs => (template 0 (offset + c.utf8Size) cs).put [c]
    else if c == '{' then template (depth + 1) (offset + 1) cs
    else if c == '}' then template (depth - 1) (offset + 1) cs
    else template depth (offset + c.utf8Size) cs

theorem templateRestLength (depth offset : Nat) (cs : List Char) :
    (template depth offset cs).rest.length ≤ cs.length := by
  fun_induction template depth offset cs <;> simp_all <;> omega

end Quoted

end CallGuard
