/-! Patterns for paths, as rows of parts. -/
namespace CallGuard

namespace Glob

inductive Part
  /-- This character. -/
  | char (c : Char)
  /-- `?`: one byte. -/
  | anyByte
  /-- `*`: any run of bytes. -/
  | anyRun
  /-- A leading `**/`: any directories above, or none. -/
  | anyAbove
  /-- `/**/`: a slash, or slashes with anything between them. -/
  | anyBetween
  /-- A trailing `/**`: a slash and anything. -/
  | anyBelow
  /-- A byte that is, or is not, in one of the ranges. -/
  | oneOf (negated : Bool) (ranges : List (Char × Char))
  /-- One of several rows of parts. -/
  | either (branches : List (List Part))
  deriving Repr

mutual

/-- Whether a part stands for nothing at all: braces around nothing. -/
def Part.isVoid : Part → Bool
  | .either branches => areVoid branches
  | _ => false

/-- Whether all parts of a row are void. -/
def isVoidRow : List Part → Bool
  | [] => true
  | p :: ps => p.isVoid && isVoidRow ps

def areVoid : List (List Part) → Bool
  | [] => true
  | row :: rows => isVoidRow row && areVoid rows

end

/-- A range of characters as ranges of bytes. Only the bytes where its two ends meet make a range;
the other bytes of its ends stand for themselves. -/
def byteRanges (a b : Char) : List (UInt8 × UInt8) :=
  let alone (bytes : List UInt8) := bytes.map fun x => (x, x)
  let first := String.utf8EncodeChar a
  let last := String.utf8EncodeChar b
  if a = b then alone first
  else
    match first.getLast?, last with
    | some x, y :: rest => alone first.dropLast ++ (x, y) :: alone rest
    | _, _ => []

/-- The ranges of bytes that the ranges of a class stand for. -/
def classRanges (ranges : List (Char × Char)) : List (UInt8 × UInt8) :=
  ranges.flatMap fun (a, b) => byteRanges a b

end Glob

/-- A pattern as a row of parts. -/
structure Glob where
  parts : List Glob.Part
  deriving Repr

end CallGuard
