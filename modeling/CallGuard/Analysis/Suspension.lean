import CallGuard.Analysis.CallSite

/-! Where a function may be suspended: its own `await` and `yield` expressions, not those of
functions and classes inside it. -/
namespace CallGuard

def NodeKind.isSuspension : NodeKind → Bool
  | .awaitExpression | .yieldExpression => true
  | _ => false

def NodeKind.ownsSuspensions (k : NodeKind) : Bool := k.isFunctionLike || k == .classDeclaration

namespace Tree

/-- The suspensions of a body in the order of the text. -/
def suspensions (t : Tree) (body : NodeId) : List Node :=
  let enters (i : NodeId) : Bool := i == body || !t.kindIs NodeKind.ownsSuspensions i
  ((t.preorder enters body).filterMap t.get?).filter (·.kind.isSuspension)

/-- Where the suspensions of a body begin. -/
def suspensionPoints (t : Tree) (body : NodeId) : List Nat :=
  (t.suspensions body).map (·.start)

/-- Whether a suspension of the function ends before an offset. `await op()` does not count for
`op()` itself, which runs first. -/
def hasSuspensionBefore (t : Tree) (function : NodeId) (offset : Nat) : Bool :=
  match t.functionBody? function with
  | some body => (t.suspensions body).any (·.stop ≤ offset)
  | none => false

/-- Whether what stands at an offset of a function runs after a suspension: the function runs
later anyway, or one of its suspensions is over, or it is a plain closure that stands after a
suspension of the function around it. -/
def followsSuspensionIn (t : Tree) : (limit : Nat) → (function? : Slot) → (offset : Nat) → Bool
  | limit + 1, some f, offset =>
    t.isContinuation f || t.hasSuspensionBefore f offset ||
      match t.get? f with
      | some n =>
        n.kind.isFunctionLiteral && t.followsSuspensionIn limit (t.enclosingFunction? f) n.start
      | none => false
  | _, _, _ => false

def followsSuspension (t : Tree) (site : NodeId) : Bool :=
  t.followsSuspensionIn maxAscent (t.enclosingFunction? site) (((t.get? site).map (·.start)).getD 0)

end Tree

end CallGuard
