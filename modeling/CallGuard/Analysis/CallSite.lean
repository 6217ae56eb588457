import CallGuard.Tree.Walk

/-! Calls and constructions: what they are named and what they are called on. -/
namespace CallGuard

/-- `receiver` is `r` in `r.op()`; bare calls and constructions have none. -/
structure CallSite where
  node : NodeId
  name : String
  receiver : Slot
  deriving DecidableEq, Repr

/-- Methods that take a callback and run it later. -/
def continuationMethods : List String :=
  ["then", "whenComplete", "catchError", "onError", "finally", "catch"]

namespace Tree

/-- A call or construction whose callee ends in a name. `new ns.Widget()` has no receiver: `ns`
only says which constructor is meant. -/
def callSite? (t : Tree) (i : NodeId) : Option CallSite := do
  let call ← t.call? (some i)
  let callee := t.skipParens call.callee
  if t.isKind callee .propertyAccess then
    let access ← t.access? callee
    let name ← t.identifier? access.name
    some ⟨i, name, if t.isKind (some i) .newExpression then none else access.object⟩
  else
    let name ← t.identifier? callee
    some ⟨i, name, none⟩

/-- The call that has the node as one of its arguments. -/
def callTakingArgument? (t : Tree) (i : NodeId) : Option CallSite := do
  let parent ← t.parent? i
  let call ← t.call? (some parent)
  let args ← call.args
  if args.items.contains (some i) then t.callSite? parent else none

/-- A function handed straight to a method that runs it later. -/
def isContinuation (t : Tree) (function : NodeId) : Bool :=
  t.kindIs NodeKind.isFunctionLiteral function &&
    (t.callTakingArgument? function).any fun call => continuationMethods.contains call.name

end Tree

end CallGuard
