import CallGuard.Glob.Form

/-! How deeply a pattern is nested. A row, braces, the choice between branches, a repetition and a
class are levels, as far as they hold something: a row or a choice of one thing is that thing. -/
namespace CallGuard.Glob

/-- How many things a row is made of, and how deeply they are nested. -/
structure Extent where
  count : Nat
  depth : Nat
  deriving DecidableEq, Repr

namespace Extent

def empty : Extent := ⟨0, 0⟩

/-- One thing. -/
def one (depth : Nat) : Extent := ⟨1, depth⟩

/-- Side by side. -/
def beside (a b : Extent) : Extent := ⟨a.count + b.count, max a.depth b.depth⟩

/-- The levels of these things as a whole. -/
def level (e : Extent) : Nat := if e.count ≤ 1 then e.depth else e.depth + 1

end Extent

mutual

/-- A character counts by its bytes, and a class by its ranges. Void braces count for nothing. -/
def Part.extent : Part → Extent
  | .char c => ⟨(String.utf8EncodeChar c).length, 0⟩
  | .anyByte => .one 0
  | .anyRun => .one 1
  | .anyAbove | .anyBetween => .one 4
  | .anyBelow => ⟨2, 1⟩
  | .oneOf _ ranges => .one (Extent.level ⟨(classRanges ranges).length, 1⟩)
  | .either branches =>
    let choice := branchesExtent branches
    if choice.count = 0 then .empty else .one (choice.level + 1)

def rowExtent : List Part → Extent
  | [] => .empty
  | p :: ps => p.extent.beside (rowExtent ps)

/-- The branches that are not void, each as one thing. -/
def branchesExtent : List (List Part) → Extent
  | [] => .empty
  | row :: rows =>
    let first := rowExtent row
    let others := branchesExtent rows
    if first.count = 0 then others else (Extent.one first.level).beside others

end

/-- The levels of a pattern, whose ends are levelled with its parts. -/
def depth (g : Glob) : Nat := (rowExtent g.parts).depth + 1

/-- Patterns that are nested more deeply cannot be used. -/
def maxDepth : Nat := 250

/-- A pattern whose parts are not looked at can be nested in any way. -/
def isUsable (g : Glob) : Bool := !g.form.needsParts || g.depth ≤ maxDepth

end CallGuard.Glob
