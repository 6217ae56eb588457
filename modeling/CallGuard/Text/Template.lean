import CallGuard.Text.Replace

/-! Messages with numbered places such as `{0}`. -/
namespace CallGuard.Template

/-- The place of argument `i`: its number in braces. -/
def place (i : Nat) : List Char := '{' :: (toString i).toList ++ ['}']

/-- Fills the places from number `i` on, one argument after the other. Each argument is put into
the outcome of the one before, so its text may hold places of later arguments. -/
def fillFrom (i : Nat) : List (List Char) → List Char → List Char
  | [], text => text
  | arg :: args, text => fillFrom (i + 1) args (Text.replaceAll (place i) arg text)

/-- The template with all its places filled. -/
def fill (template : String) (args : List String) : String :=
  String.ofList (fillFrom 0 (args.map String.toList) template.toList)

end CallGuard.Template
