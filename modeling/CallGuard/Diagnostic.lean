import CallGuard.Rule.Basic
import CallGuard.Text.Offset

/-! What is reported about a piece of a file. -/
namespace CallGuard

structure Diagnostic where
  file : String
  start : Nat
  length : Nat
  ruleId : String
  message : String
  correction? : Option String
  category : Category
  deriving DecidableEq, Repr

namespace Diagnostic

/-- Where the reported piece ends, unless that is beyond the largest offset. -/
def stop? (d : Diagnostic) : Option Nat := Offset.add? d.start d.length

/-- By place, and at one place by rule. -/
def before (a b : Diagnostic) : Bool :=
  a.start < b.start || (a.start == b.start && !decide (b.ruleId < a.ruleId))

end Diagnostic

end CallGuard
