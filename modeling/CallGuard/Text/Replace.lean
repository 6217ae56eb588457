/-! Replacing every occurrence of a pattern, found from left to right and never overlapping. -/
namespace CallGuard.Text

/-- Goes on after `skip` more characters, which belong to an occurrence already replaced. -/
def replaceFrom (pattern new : List Char) : (skip : Nat) → List Char → List Char
  | _, [] => []
  | skip + 1, _ :: cs => replaceFrom pattern new skip cs
  | 0, c :: cs =>
    if pattern.isPrefixOf (c :: cs) then new ++ replaceFrom pattern new (pattern.length - 1) cs
    else c :: replaceFrom pattern new 0 cs

/-- An empty pattern occurs at both ends and between any two characters. -/
def replaceAll (pattern new cs : List Char) : List Char :=
  if pattern = [] then cs.flatMap (fun c => new ++ [c]) ++ new
  else replaceFrom pattern new 0 cs

end CallGuard.Text
