import CallGuard.Breakdown
import CallGuard.Text.Offset

/-! Edits of a text, and fixes made of several edits. -/
namespace CallGuard

/-- Replaces `length` bytes from `start` on. -/
structure TextEdit where
  start : Nat
  length : Nat
  newText : String
  deriving DecidableEq, Repr

structure Fix where
  ruleId : String
  description : String
  edits : List TextEdit
  deriving DecidableEq, Repr

/-- A text after a batch of changes, with the number of those made and of those left out. -/
structure Applied where
  text : List Char
  applied : Nat
  skipped : Nat
  deriving DecidableEq, Repr

namespace TextEdit

def stop? (e : TextEdit) : Option Nat := Offset.add? e.start e.length

/-- By start, and at one start by length. -/
def before (a b : TextEdit) : Bool :=
  a.start < b.start || (a.start == b.start && a.length ≤ b.length)

/-- The text before the edit and the text after it, within what is left of a text from offset
`pos` on. Nothing when the edit starts earlier, reaches too far or splits a character. -/
def around? (e : TextEdit) (pos : Nat) (rest : List Char) : Option (List Char × List Char) :=
  if e.start < pos then none
  else do
    let (kept, after) ← Text.splitAt? (e.start - pos) rest
    let (_, after) ← Text.splitAt? e.length after
    some (kept, after)

/-- Makes the edits that fit one after the other. -/
def applyFrom (pos : Nat) (rest : List Char) : List TextEdit → Applied
  | [] => ⟨rest, 0, 0⟩
  | e :: es =>
    match e.around? pos rest with
    | some (kept, after) =>
      let done := applyFrom (e.start + e.length) after es
      ⟨kept ++ (e.newText.toList ++ done.text), done.applied + 1, done.skipped⟩
    | none =>
      let done := applyFrom pos rest es
      { done with skipped := done.skipped + 1 }

/-- Makes edits in the order of their places. One that overlaps an edit already made, or does not
fit the text, is left out. -/
def applyAll (text : List Char) (edits : List TextEdit) : Except Breakdown Applied := do
  let _ ← Breakdown.unlessTooLarge (edits.mapM stop?)
  return applyFrom 0 text (edits.mergeSort before)

end TextEdit

namespace Fix

/-- Whether two edits share a byte, or one inserts strictly inside the other. -/
def overlaps (e other : TextEdit) : Bool :=
  e.start < other.start + other.length && other.start < e.start + e.length

/-- Whether one of the edits reaches past the end of the text or overlaps an accepted edit. The
edits are looked at in order up to the first that does. -/
def conflicts (length : Nat) (accepted : List TextEdit) : List TextEdit → Except Breakdown Bool
  | [] => return false
  | e :: es => do
    let stop ← Breakdown.unlessTooLarge e.stop?
    if stop > length || accepted.any (overlaps e) then return true
    else conflicts length accepted es

/-- Accepted edits, and the numbers of accepted and refused fixes. -/
structure Selection where
  edits : List TextEdit
  applied : Nat
  skipped : Nat

/-- Accepts fixes as wholes, in the given order. -/
def select (length : Nat) (s : Selection) : List Fix → Except Breakdown Selection
  | [] => return s
  | f :: fs => do
    if ← conflicts length s.edits f.edits then
      select length { s with skipped := s.skipped + 1 } fs
    else select length ⟨s.edits ++ f.edits, s.applied + 1, s.skipped⟩ fs

/-- Makes whole fixes. A fix that overlaps one already accepted is left out as a whole. -/
def applyAll (text : List Char) (fixes : List Fix) : Except Breakdown Applied := do
  let s ← select (Text.byteLength text) ⟨[], 0, 0⟩ fixes
  let done ← TextEdit.applyAll text s.edits
  return ⟨done.text, s.applied, s.skipped⟩

end Fix

end CallGuard
