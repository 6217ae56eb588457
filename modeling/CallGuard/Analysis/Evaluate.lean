import CallGuard.Analysis.DeclaredType
import CallGuard.Analysis.Guard
import CallGuard.Analysis.Suspension
import CallGuard.Breakdown
import CallGuard.Diagnostic
import CallGuard.Text.Template

/-! Rules at work on one file: every call that a rule is about and nothing protects is reported. -/
namespace CallGuard

/-- Where the types of expressions come from: the head name of a type, or nothing if unknown. -/
abbrev TypeOracle := Slot → Except Breakdown (Option String)

namespace TypeOracle

def declared (t : Tree) : TypeOracle :=
  let types := DeclaredTypes.ofTree t
  fun s => .ok (types.typeOf? t s)

def unknown : TypeOracle := fun _ => .ok none

def constant (name : String) : TypeOracle := fun _ => .ok (some name)

def failing : TypeOracle := fun _ => .error .typesFailed

end TypeOracle

/-- One file as rules see it. -/
structure Analysis where
  tree : Tree
  root : NodeId
  fileName : String
  types : TypeOracle

namespace Analysis

/-- The call with the slot's list as a direct part of an argument, when the list holds the node.
Calls between the node and the list do not matter, functions do. -/
def containerAbove? (t : Tree) (containers : List String) (slot : String) :
    (above : List NodeId) → Option NodeId
  | [] => none
  | current :: above =>
    if t.kindIs NodeKind.isFunctionLike current then none
    else if t.kindIs (· == .arrayLiteral) current then do
      let holder ← t.parent? current
      let property ←
        if t.kindIs (· == .propertyAssignment) holder then t.property? (some holder) else none
      if property.init == some current && t.identifier? property.name == some slot then
        let container ← t.callTakingArgument? (← t.parent? holder)
        if containers.contains container.name then some container.node else none
      else none
    else containerAbove? t containers slot above

/-- The container in whose slot a node stands. -/
def containerSlot? (t : Tree) (leaf : NodeId) (containers : List String) (slot : String) :
    Option NodeId :=
  containerAbove? t containers slot (t.ancestors leaf)

def acceptsReceiver (a : Analysis) (site : CallSite) :
    ReceiverRequirement → Except Breakdown Bool
  | .any => return true
  | .this => return match site.receiver with
    | some r => a.tree.isThis (some r)
    | none => true
  | .unqualified => return site.receiver.isNone
  | .typed types =>
    match site.receiver with
    | some r => return (← a.types (some r)).any types.contains
    | none => return false

def isApplicable (t : Tree) (site : NodeId) : Applicability → Bool
  | .always => true
  | .asyncFunction => ((t.enclosingFunction? site).bind t.get?).any (·.isAsync)
  | .afterSuspension => t.followsSuspension site
  | .containerSlot containers slot => (containerSlot? t site containers slot).isSome

/-- The call at a node, if a rule is about it there. -/
def matchOperation? (a : Analysis) (m : OperationMatcher) (i : NodeId) :
    Except Breakdown (Option CallSite) := do
  match a.tree.callSite? i with
  | none => return none
  | some site =>
    if !m.operations.contains site.name then return none
    else if !(← a.acceptsReceiver site m.receiver) then return none
    else if isApplicable a.tree site.node m.applicability then return some site
    else return none

/-- The guard that a fix would write for a call. -/
def guardText (t : Tree) (site : CallSite) : GuardSpec → String
  | .condition (p :: _) => t.conditionText site.subject p
  | .condition [] => ""
  | .wrapper _ preferred => preferred

def diagnose (a : Analysis) (rule : Rule) (site : CallSite) (n : Node) : Diagnostic :=
  let args := [site.name, guardText a.tree site rule.guard]
  { file := a.fileName
    start := n.start
    length := n.width
    ruleId := rule.id
    message := Template.fill rule.message args
    correction? := rule.correction?.map (Template.fill · args)
    category := rule.category }

/-- What a rule says about a single node. -/
def diagnose? (a : Analysis) (rule : Rule) (i : NodeId) :
    Except Breakdown (Option Diagnostic) := do
  match ← a.matchOperation? rule.matcher i with
  | none => return none
  | some site =>
    if (a.tree.guard? a.root site rule.guard).isSome then return none
    else return (a.tree.get? i).map (a.diagnose rule site)

/-- Only the first of several diagnostics at one place counts. -/
def firstAtEachStart : (seen : List Nat) → List Diagnostic → List Diagnostic
  | _, [] => []
  | seen, d :: ds =>
    if seen.contains d.start then firstAtEachStart seen ds
    else d :: firstAtEachStart (d.start :: seen) ds

/-- What one rule reports, in the order of the text. -/
def evaluate (a : Analysis) (rule : Rule) : Except Breakdown (List Diagnostic) := do
  let found ← (a.tree.preorder (fun _ => true) a.root).mapM (a.diagnose? rule)
  return firstAtEachStart [] (found.filterMap id)

/-- Of neighbours with the same place and rule only the first stays. -/
def mergeNeighbours : List Diagnostic → List Diagnostic
  | [] => []
  | d :: ds =>
    match mergeNeighbours ds with
    | [] => [d]
    | e :: es => if d.start == e.start && d.ruleId == e.ruleId then d :: es else d :: e :: es

/-- What all rules report, by place and rule. A rule whose types break down reports nothing. -/
def evaluateAll (a : Analysis) (rules : List Rule) : List Diagnostic :=
  mergeNeighbours ((rules.flatMap fun rule => match a.evaluate rule with
    | .ok found => found
    | .error _ => []).mergeSort Diagnostic.before)

end Analysis

end CallGuard
