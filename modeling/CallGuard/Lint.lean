import CallGuard.Fix.Synthesize
import CallGuard.Parser.Program

/-! The whole analysis of one file: what is wrong with it as a program, what the rules report, and
the fixes there are. -/
namespace CallGuard

/-- A diagnostic with the fix that there is for it. -/
structure Finding where
  diagnostic : Diagnostic
  fix? : Option Fix
  deriving DecidableEq, Repr

namespace Finding

/-- A fault of syntax is an error under a name of its own, and has no fix. -/
def ofSyntaxError (fileName : String) (e : SyntaxError) : Finding :=
  ⟨⟨fileName, e.start, e.length, "parse-error", e.fault.message, none, .error⟩, none⟩

end Finding

/-- The file as rules see it, with the types that its declarations state. -/
def Program.analysis (p : Program) (fileName : String) : Analysis :=
  ⟨p.tree, p.root, fileName, .declared p.tree⟩

/-- Reads a file, runs the rules and looks for fixes. A file with faults is analysed as far as it
could be read. -/
def lint (fileName : String) (text : List Char) (rules : List Rule) :
    Except Breakdown (List Finding) := do
  let p := Program.parse fileName text
  let a := p.analysis fileName
  let found ← (a.evaluateAll rules).mapM fun d => do
    match rules.find? (·.id == d.ruleId) with
    | some rule => return ⟨d, ← a.synthesize? rule d⟩
    | none => return ⟨d, none⟩
  return (p.errors.map (Finding.ofSyntaxError fileName) ++ found).mergeSort fun x y =>
    x.diagnostic.before y.diagnostic

end CallGuard
