import CallGuard.Breakdown
import CallGuard.Glob.Filter
import CallGuard.Json.Basic

/-! What can keep a run from being done. -/
namespace CallGuard

inductive RunFault
  | invalidConfig (fault : JsonFault)
  /-- The same, when the configuration comes from a file. -/
  | invalidConfigFile (path : String) (fault : JsonFault)
  | repeatedRule (id : String)
  | unknownRule (id : String)
  | badPattern (fault : PatternFault)
  | noConfig (path : String)
  | noSuchPath (path : String)
  /-- A file that holds no text. -/
  | unreadable (path : String)
  | brokenDown (reason : Breakdown)
  deriving DecidableEq, Repr

namespace RunFault

def message : RunFault → String
  | .invalidConfig _ => "invalid guardlint configuration"
  | .invalidConfigFile path _ => "in " ++ path
  | .repeatedRule id => "rule '" ++ id ++ "' is declared more than once"
  | .unknownRule id => "unknown rule '" ++ id ++ "' in rules settings"
  | .badPattern (.invalid pattern) => "invalid glob '" ++ pattern ++ "'"
  | .badPattern .tooDeep => "failed to compile globs"
  | .noConfig path => "config not found at " ++ path
  | .noSuchPath path => "no such file or directory: " ++ path
  | .unreadable path => "failed to read " ++ path
  | .brokenDown .typesFailed => "the types of the program cannot be told"
  | .brokenDown .offsetTooLarge => "an offset is too large"

end RunFault

end CallGuard
