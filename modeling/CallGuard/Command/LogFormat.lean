/-! The form in which a run logs what it does. -/
namespace CallGuard

inductive LogFormat
  | text | tree | json
  deriving DecidableEq, Repr

namespace LogFormat

/-- The format of a name in any case. Everything that names no other format means plain text. -/
def ofName (name : String) : LogFormat :=
  match name.toLower with
  | "tree" => .tree
  | "json" => .json
  | _ => .text

end LogFormat

end CallGuard
