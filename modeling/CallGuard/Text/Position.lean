import CallGuard.Text.Offset

/-! Line and column of an offset. Only a line feed ends a line, and columns count bytes, both
from zero. -/
namespace CallGuard

structure Position where
  line : Nat
  character : Nat
  deriving DecidableEq, Repr

namespace Position

/-- Reading order: by line, then by column. -/
def before (p q : Position) : Prop :=
  p.line < q.line ∨ (p.line = q.line ∧ p.character < q.character)

instance (p q : Position) : Decidable (p.before q) := by unfold before; infer_instance

end Position

/-- The answer of a search in an ascending row: where the entry stands, or where it would have to be put. -/
inductive SearchAnswer
  | found (place : Nat)
  | missing (place : Nat)
  deriving DecidableEq, Repr

/-- Looks for an entry by halves, from one place of an ascending row up to another. -/
def searchBetween (row : Array Nat) (entry lo hi : Nat) (inside : hi ≤ row.size) : SearchAnswer :=
  if _some : lo < hi then
    let middle := lo + (hi - lo) / 2
    have _reached : middle < row.size := by omega
    if row[middle] = entry then .found middle
    else if row[middle] < entry then searchBetween row entry (middle + 1) hi inside
    else searchBetween row entry lo middle (by omega)
  else .missing lo
termination_by hi - lo

/-- Where each line of a text begins. -/
structure LineMap where
  starts : Array Nat
  length : Nat
  deriving Repr

namespace LineMap

/-- The offsets just after each line feed of a text that begins at `pos`. -/
def startsAfterBreaks (pos : Nat) : List Char → List Nat
  | [] => []
  | c :: cs =>
    if c = '\n' then (pos + c.utf8Size) :: startsAfterBreaks (pos + c.utf8Size) cs
    else startsAfterBreaks (pos + c.utf8Size) cs

def ofText (text : List Char) : LineMap :=
  ⟨(0 :: startsAfterBreaks 0 text).toArray, Text.byteLength text⟩

def lineCount (m : LineMap) : Nat := m.starts.size

def search (m : LineMap) (offset : Nat) : SearchAnswer :=
  searchBetween m.starts offset 0 m.starts.size (Nat.le_refl _)

/-- The line that begins at the offset looked for, or else the last one that begins before it. -/
def lineOf : SearchAnswer → Nat
  | .found line => line
  | .missing next => next - 1

/-- Offsets past the end mean the end. -/
def positionOf (m : LineMap) (offset : Nat) : Position :=
  let o := min offset m.length
  let line := lineOf (m.search o)
  ⟨line, o - m.starts.getD line 0⟩

/-- The offset of a position, cut off at the end of the text; nothing when the column is so far
right that the offset would be beyond the largest. -/
def offsetOf? (m : LineMap) (p : Position) : Option Nat :=
  match m.starts[p.line]? with
  | none => some m.length
  | some start => (Offset.add? start p.character).map (min · m.length)

/-- Both ends of a piece of text. -/
def rangeOf? (m : LineMap) (start length : Nat) : Option (Position × Position) :=
  (Offset.add? start length).map fun stop => (m.positionOf start, m.positionOf stop)

end LineMap

end CallGuard
