import CallGuard.Json.Basic
import CallGuard.Text.CharClass

/-! Numbers as JSON writes them, and which of them are within double precision. A number is reckoned
in three steps, each of which may round: its leading digits are taken as far as they fit into 64
bits, they and the power of ten that they stand with become doubles, and the product of the two
becomes a double. So near the largest double the answer depends on how a number is written. -/
namespace CallGuard.Json

/-- The value of a row of digits. -/
def digitsValue (ds : List Char) : Nat := ds.foldl (fun n c => 10 * n + (c.toNat - '0'.toNat)) 0

/-- Goes on with a number by the digits that follow, as long as it fits into 64 bits. Gives the
digits that are left, too. -/
def leadingValue : Nat → List Char → Nat × List Char
  | n, [] => (n, [])
  | n, c :: cs =>
    let next := 10 * n + digitsValue [c]
    if next < Nat.pow 2 64 then leadingValue next cs else (n, c :: cs)

/-- The multiple of `unit` that is nearest to a number. Of two that are as near, the even one. -/
def roundTo (unit n : Nat) : Nat :=
  let q := n / unit
  let twice := 2 * (n % unit)
  if twice < unit || (twice == unit && q % 2 == 0) then q * unit else (q + 1) * unit

/-- The nearest number with 53 significant bits. -/
def roundToDouble (n : Nat) : Nat := roundTo (Nat.pow 2 (n.log2 - 52)) n

/-- Numbers from here on, the middle between the largest double and what would come next, are too
large. -/
def doubleLimit : Nat := Nat.pow 2 1024 - Nat.pow 2 970

/-- The largest power of ten that is a double has this exponent. -/
def maxPowerOfTen : Nat := 308

/-- The parts of a number: its digits before and after the point, and its exponent. -/
structure NumberParts where
  whole : List Char
  fraction : List Char
  exponent : Int

namespace NumberParts

/-- The digits that count, and the power of ten that they stand with. Of the digits that do not
count, those before the point are still places. -/
def scaled (p : NumberParts) : Nat × Int :=
  let (n, whole) := leadingValue 0 p.whole
  let (n, fraction) := leadingValue n p.fraction
  (n, p.exponent + whole.length + fraction.length - p.fraction.length)

/-- Whether a number is within double precision. -/
def isFinite (p : NumberParts) : Bool :=
  let (n, power) := p.scaled
  if n == 0 || power < 0 then true
  else if maxPowerOfTen < power then false
  else roundToDouble n * roundToDouble (Nat.pow 10 power.toNat) < doubleLimit

end NumberParts

/-! ### Reading -/

/-- A run of one or more digits. -/
def readDigits (cs : List Char) : Except JsonStop (List Char × List Char) :=
  match cs.takeWhile isAsciiDigit, cs.dropWhile isAsciiDigit with
  | [], [] => .error .endedInNumber
  | [], _ => .error .unexpected
  | ds, rest => .ok (ds, rest)

def readFraction (cs : List Char) : Except JsonStop (List Char × List Char) :=
  match cs with
  | '.' :: rest => readDigits rest
  | _ => .ok ([], cs)

/-- The exponent behind its letter. -/
def readPower (cs : List Char) : Except JsonStop (Int × List Char) :=
  match cs with
  | '-' :: rest => (readDigits rest).map fun (ds, rest) => (-(digitsValue ds : Int), rest)
  | '+' :: rest => (readDigits rest).map fun (ds, rest) => ((digitsValue ds : Int), rest)
  | _ => (readDigits cs).map fun (ds, rest) => ((digitsValue ds : Int), rest)

def readExponent (cs : List Char) : Except JsonStop (Int × List Char) :=
  match cs with
  | 'e' :: rest => readPower rest
  | 'E' :: rest => readPower rest
  | _ => .ok (0, cs)

/-- Reads a number from behind its sign. A zero is followed by no other digit. -/
def NumberParts.read (cs : List Char) : Except JsonStop (NumberParts × List Char) := do
  let (whole, rest) ← readDigits cs
  if whole.length > 1 && whole.head? == some '0' then throw .unexpected
  let (fraction, rest) ← readFraction rest
  let (exponent, rest) ← readExponent rest
  return (⟨whole, fraction, exponent⟩, rest)

end CallGuard.Json
