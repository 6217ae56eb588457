import CallGuard.Tree.Basic

/-! Going up and down a tree. Every walk is bounded, so that it ends on any row of nodes. -/
namespace CallGuard

/-- No walk towards the root takes more steps. -/
def maxAscent : Nat := 10000

/-- No walk through a tree visits more nodes. -/
def maxVisits : Nat := 5000000

namespace Tree

/-- A place and the places above it, nearest first, at most `limit` of them. -/
def chain (t : Tree) : (limit : Nat) → Slot → List NodeId
  | limit + 1, some i => i :: t.chain limit (t.parent? i)
  | _, _ => []

/-- Everything above a node, nearest first. -/
def ancestors (t : Tree) (i : NodeId) : List NodeId := t.chain maxAscent (t.parent? i)

def kindIs (t : Tree) (p : NodeKind → Bool) (i : NodeId) : Bool := (t.kind? i).any p

/-- Whether one node is another one or above it. -/
def contains (t : Tree) (ancestor : Slot) (s : Slot) : Bool :=
  (t.chain maxAscent s).any fun i => some i == ancestor

/-- The visited nodes of `preorder`, last first, with the stack of nodes still to visit. -/
def visit (t : Tree) (enters : NodeId → Bool) :
    (limit : Nat) → (stack : List NodeId) → (visited : List NodeId) → List NodeId
  | limit + 1, i :: stack, visited =>
    t.visit enters limit (if enters i then t.children i ++ stack else stack) (i :: visited)
  | _, _, visited => visited

/-- The nodes under a root in the order of the text, parents before children. Nodes that are not
entered are visited themselves but not their children. -/
def preorder (t : Tree) (enters : NodeId → Bool) (root : NodeId) : List NodeId :=
  (t.visit enters maxVisits [root] []).reverse

/-- Follows `inner?` as long as it leads on, at most `limit` times. -/
def unwrapBy (inner? : Slot → Option Slot) : (limit : Nat) → Slot → Slot
  | 0, s => s
  | limit + 1, s =>
    match inner? s with
    | some inner => unwrapBy inner? limit inner
    | none => s

/-- What parentheses or a `!` stand around. -/
def parensInner? (t : Tree) (s : Slot) : Option Slot :=
  match t.parenthesized? s with
  | some inner => some inner
  | none => if t.isKind s .nonNull then t.operand? s else none

/-- What parentheses, a `!` or an `await` stand around. -/
def valueInner? (t : Tree) (s : Slot) : Option Slot :=
  match t.parensInner? s with
  | some inner => some inner
  | none => if t.isKind s .awaitExpression then t.operand? s else none

/-- An expression without the parentheses and `!` around it. -/
def skipParens (t : Tree) (s : Slot) : Slot := unwrapBy t.parensInner? maxAscent s

/-- An expression without parentheses, `!` and `await` around it. -/
def skipWrappers (t : Tree) (s : Slot) : Slot := unwrapBy t.valueInner? maxAscent s

def isThis (t : Tree) (s : Slot) : Bool := t.isKind (t.skipParens s) (.token (.word .thisWord))

/-- The function around a node, innermost first. -/
def enclosingFunction? (t : Tree) (i : NodeId) : Option NodeId :=
  (t.ancestors i).find? (t.kindIs NodeKind.isFunctionLike)

def functionBody? (t : Tree) (i : NodeId) : Option NodeId := (t.function? (some i)).bind (·.body)

end Tree

end CallGuard
