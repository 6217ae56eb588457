import CallGuard.Analysis.Evaluate
import CallGuard.Fix.Edit
import CallGuard.Text.Position

/-! Writing the guard that a call lacks. A statement is put into an `if`, the body of an arrow
function into a conditional, and a call that needs a wrapper into that wrapper. Other calls get no
fix. A statement is wrapped by inserting text around it, so that fixes inside it stay apart. -/
namespace CallGuard

namespace Fix

/-- The leading spaces of a line. -/
def indentWidth (line : List Char) : Nat := (line.takeWhile (· == ' ')).length

def isBlankLine (line : List Char) : Bool := line.all isUnicodeSpace

/-- One level of indentation: a tab if the line has tabs, and else the smallest indentation by
spaces in the text, or two spaces if there is none. -/
def indentUnit (text indent : List Char) : List Char :=
  if indent.contains '\t' then ['\t']
  else
    let lines := (text.splitOn '\n').filter fun line => !isBlankLine line
    let widths := (lines.map indentWidth).filter (0 < ·)
    List.replicate (widths.min?.getD 2) ' '

/-- Insertions that put the statement from `start` to `stop` into an `if`: on lines of its own
when it has its lines for itself, and else within its line. `braced` adds a block around, for a
statement that stands in no list. -/
def wrapStatement? (text : List Char) (start stop : Nat) (condition : String) (braced : Bool) :
    Option (List TextEdit) := do
  let (before, after) ← Text.splitAt? start text
  let (statement, after) ← if start ≤ stop then Text.splitAt? (stop - start) after else none
  let indent := (before.reverse.takeWhile (· != '\n')).reverse
  let behind := after.takeWhile (· != '\n')
  if braced then
    some [⟨start, 0, "\x7b if (" ++ condition ++ ") \x7b "⟩, ⟨stop, 0, " \x7d \x7d"⟩]
  else if !isBlankLine indent || !isBlankLine behind then
    some [⟨start, 0, "if (" ++ condition ++ ") \x7b "⟩, ⟨stop, 0, " \x7d"⟩]
  else
    let unit := String.ofList (indentUnit text indent)
    let indent := String.ofList indent
    let inner := (LineMap.startsAfterBreaks start statement).map fun pos => ⟨pos, 0, unit⟩
    some (⟨start, 0, "if (" ++ condition ++ ") \x7b\n" ++ indent ++ unit⟩ ::
      (inner ++ [⟨stop, 0, "\n" ++ indent ++ "\x7d"⟩]))

/-- Where the condition of a call can be written: an awaited call counts as a whole. -/
def conditionEdits? (t : Tree) (text : List Char) (site : NodeId) (condition : String) :
    Option (List TextEdit) := do
  let above ← t.parent? site
  let awaited := t.kindIs (· == .awaitExpression) above
  let expression := if awaited then above else site
  let holder ← if awaited then t.parent? above else some above
  let n ← t.get? holder
  match t.payloadAt? holder with
  | some (.expressionStatement inner) =>
    if inner == some expression then
      let listed := (t.parent? holder).any (t.kindIs fun k => k == .block || k == .sourceFile)
      wrapStatement? text n.start n.stop condition (!listed)
    else none
  | some (.function f) =>
    if n.kind == .arrowFunction && f.body == some expression then
      let e ← t.get? expression
      let written ← t.textAt? expression
      some [⟨e.start, e.width, condition ++ " ? " ++ String.ofList written ++ " : null"⟩]
    else none
  | _ => none

/-- The edits that guard a call in the way of a rule, and the text of the guard. -/
def guardEdits? (t : Tree) (site : CallSite) : GuardSpec → Option (List TextEdit × String)
  | .wrapper _ preferred => do
    let n ← t.get? site.node
    let leaf ← t.textAt? site.node
    some ([⟨n.start, n.width, preferred ++ "(" ++ String.ofList leaf ++ ")"⟩], preferred)
  | .condition predicates => do
    let predicate ← predicates.head?
    let condition := t.conditionText site.subject predicate
    let edits ← conditionEdits? t (t.text?.getD []) site.node condition
    some (edits, condition)

def describe (rule : Rule) (site : CallSite) (guard : String) : String :=
  match rule.correction? with
  | some correction => Template.fill correction [site.name, guard]
  | none => "Guard '" ++ site.name ++ "' with '" ++ guard ++ "'"

end Fix

namespace Analysis

/-- The first node with the given ends that a rule is about. -/
def locate? (a : Analysis) (rule : Rule) (start stop : Nat) :
    (candidates : List NodeId) → Except Breakdown (Option CallSite)
  | [] => return none
  | i :: rest => do
    if (a.tree.get? i).any fun n => n.start == start && n.stop == stop then
      match ← a.matchOperation? rule.matcher i with
      | some site => return some site
      | none => a.locate? rule start stop rest
    else a.locate? rule start stop rest

/-- The fix for a diagnostic of a rule, where there is one. -/
def synthesize? (a : Analysis) (rule : Rule) (d : Diagnostic) : Except Breakdown (Option Fix) := do
  if d.ruleId != rule.id then return none
  let stop ← Breakdown.unlessTooLarge d.stop?
  match ← a.locate? rule d.start stop (List.range a.tree.size) with
  | none => return none
  | some site =>
    return (Fix.guardEdits? a.tree site rule.guard).map fun (edits, guard) =>
      ⟨rule.id, Fix.describe rule site guard, edits⟩

end Analysis

end CallGuard
