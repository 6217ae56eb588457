import CallGuard.Analysis.CallSite
import CallGuard.Analysis.Condition

/-! What protects a call: a condition on the way up to its function that must have held, an
earlier exit in the nearest row of statements, or a call around it. The search never leaves the
innermost function. -/
namespace CallGuard

inductive GuardKind
  | directIf | earlyReturn | conditional | wrapper | nestedCallback
  deriving DecidableEq, Repr

/-- `scope` bounds the search; `guard` is the node that protects. -/
structure GuardMatch where
  kind : GuardKind
  scope : Slot
  guard : NodeId
  deriving DecidableEq, Repr

def CallSite.subject (s : CallSite) : Subject :=
  match s.receiver with
  | some r => .expr (some r)
  | none => .implicitThis

namespace Tree

/-- Whether a statement never goes on to the next one. -/
def exits (t : Tree) : (limit : Nat) → Slot → Bool
  | 0, _ => false
  | limit + 1, s =>
    match t.kind? =<< s with
    | some .returnStatement | some .throwStatement | some .breakStatement
    | some .continueStatement => true
    | some .block =>
      match (t.block? s).bind (·.items.getLast?) with
      | some last => t.exits limit last
      | none => false
    | some .ifStatement =>
      match t.branch? s with
      | some b => b.elseBranch.isSome && t.exits limit b.thenBranch && t.exits limit b.elseBranch
      | none => false
    | _ => false

/-- The statements of a block or of a file. -/
def statementList? (t : Tree) (i : NodeId) : Option (List Slot) :=
  match t.payloadAt? i with
  | some (.block l) => some l.items
  | some (.sourceFile f) => some f.statements.items
  | _ => none

end Tree

namespace ConditionMatcher

/-- `if (unsafe) return;`, or `if (safe) {...} else return;`. -/
def isExitGuard (m : ConditionMatcher) (s : Slot) : Bool :=
  match m.tree.branch? s with
  | some b =>
    (m.denies b.test && m.tree.exits (maxAscent + 1) b.thenBranch) ||
      (b.elseBranch.isSome && m.affirms b.test && m.tree.exits (maxAscent + 1) b.elseBranch)
  | none => false

/-- The exit guard nearest before a statement in its row. -/
def exitGuardBefore? (m : ConditionMatcher) (statements : List Slot) (child : NodeId) :
    Option NodeId :=
  if statements.contains (some child) then
    (((statements.takeWhile (· != some child)).reverse).find? m.isExitGuard).join
  else none

/-- How a node protects the child through which it was reached, if it does. -/
def branchGuard? (m : ConditionMatcher) (current child : NodeId) : Option GuardKind :=
  match m.tree.payloadAt? current with
  | some (.branch b) =>
    if (b.thenBranch == some child && m.affirms b.test) ||
        (b.elseBranch == some child && m.denies b.test) then some .directIf
    else none
  | some (.conditional c) =>
    if (c.whenTrue == some child && m.affirms c.condition) ||
        (c.whenFalse == some child && m.denies c.condition) then some .conditional
    else none
  | some (.binary b) =>
    if b.right == some child &&
        ((b.op == .token (.punct .ampersandAmpersand) && m.affirms b.left) ||
          (b.op == .token (.punct .barBar) && m.denies b.left)) then some .conditional
    else none
  | _ => none

/-- Goes up from `child` through the nodes above it, as far as the scope. Only the first row of
statements on the way is searched for exits. -/
def search (m : ConditionMatcher) (scope : NodeId) :
    (listSeen : Bool) → (child : NodeId) → (above : List NodeId) → Option GuardMatch
  | _, _, [] => none
  | listSeen, child, current :: above =>
    let statements? := if listSeen then none else m.tree.statementList? current
    match m.branchGuard? current child with
    | some kind => some ⟨kind, some scope, current⟩
    | none =>
      match statements?.bind fun statements => m.exitGuardBefore? statements child with
      | some guard => some ⟨.earlyReturn, some scope, guard⟩
      | none =>
        if current = scope then none
        else m.search scope (listSeen || statements?.isSome) current above

end ConditionMatcher

namespace Tree

/-- The condition that protects a call. In a callback that runs later only its own body counts,
and a guard found there is of a kind of its own. -/
def conditionGuard? (t : Tree) (root site : NodeId) (subject : Subject)
    (predicates : List Predicate) : Option GuardMatch := do
  let m ← t.matcher? subject predicates
  match t.enclosingFunction? site with
  | some f =>
    let found ← m.search f false site (t.ancestors site)
    some (if t.isContinuation f then { found with kind := .nestedCallback } else found)
  | none => m.search root false site (t.ancestors site)

/-- The innermost call to one of the wrappers above a node, up to the nearest function or list. -/
def wrapperAbove? (t : Tree) (wrappers : List String) : (above : List NodeId) → Option GuardMatch
  | [] => none
  | current :: above =>
    if t.kindIs (fun k => k.isFunctionLike || k == .arrayLiteral) current then none
    else if (t.callSite? current).any fun call => wrappers.contains call.name then
      some ⟨.wrapper, t.parent? current, current⟩
    else t.wrapperAbove? wrappers above

def wrapperGuard? (t : Tree) (site : NodeId) (wrappers : List String) : Option GuardMatch :=
  t.wrapperAbove? wrappers (t.ancestors site)

/-- What protects a call in the way that a rule asks for. -/
def guard? (t : Tree) (root : NodeId) (site : CallSite) : GuardSpec → Option GuardMatch
  | .condition predicates => t.conditionGuard? root site.node site.subject predicates
  | .wrapper wrappers _ => t.wrapperGuard? site.node wrappers

end Tree

end CallGuard
