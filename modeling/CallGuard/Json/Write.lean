import CallGuard.Json.Literal

/-! Writing JSON over several lines, one item or member a line, two spaces deeper for each level.
Empty arrays and objects stay on one line. -/
namespace CallGuard.Json

/-- A new line at a level. -/
def lineAt (level : Nat) : List Char := '\n' :: List.replicate (2 * level) ' '

/-- Puts parts on lines of their own between brackets. -/
def enclose (opening closing : Char) (level : Nat) (parts : List (List Char)) : List Char :=
  match parts with
  | [] => [opening, closing]
  | _ =>
    let inner := parts.map (lineAt (level + 1) ++ ·)
    opening :: ((inner.intersperse [',']).flatten ++ lineAt level ++ [closing])

/-- What a key is written as. A key that could not be read has no text of its own. -/
def keyText (key : Option String) : List Char := Literal.quote (key.getD "")

mutual

/-- The text of a value whose first character stands at a level. Holes have no text. -/
def prettyAt (level : Nat) : Json → List Char
  | .null => "null".toList
  | .bool b => (toString b).toList
  | .number literal => literal.toList
  | .string s => Literal.quote s
  | .array items _ => enclose '[' ']' level (prettyItems (level + 1) items)
  | .object members _ => enclose '\x7b' '\x7d' level (prettyMembers (level + 1) members)
  | .unreadable form => prettyAt level form
  | .broken _ => []

def prettyItems (level : Nat) : List Json → List (List Char)
  | [] => []
  | item :: items => prettyAt level item :: prettyItems level items

def prettyMembers (level : Nat) : List (Option String × Json) → List (List Char)
  | [] => []
  | (key, value) :: members =>
    (keyText key ++ [':', ' '] ++ prettyAt level value) :: prettyMembers level members

end

def pretty (j : Json) : String := String.ofList (prettyAt 0 j)

end CallGuard.Json
