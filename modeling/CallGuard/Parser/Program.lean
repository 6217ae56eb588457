import CallGuard.Parser.Statement
import CallGuard.Token.Scan

/-! Reading a text as a program. -/
namespace CallGuard

/-- A program: its tree, the node of the whole file, and the faults in the order of the text. -/
structure Program where
  tree : Tree
  root : NodeId
  errors : List SyntaxError

namespace Program

/-- No text of so many tokens holds productions inside one another more often: a production
enters at most four others before it consumes a token. -/
def fuelFor (tokens : Nat) : Nat := 8 * tokens + 16

/-- The state before the first token. -/
def initialState (tokens : List Token) : ParseState :=
  match tokens with
  | t :: ts => ⟨⟨t, ts, 0, [], none⟩, 0, false, .empty⟩
  | [] => ⟨⟨{ Token.initial with kind := .endOfFile }, [], 0, [], none⟩, 0, false, .empty⟩

/-- The statements of a row of tokens. -/
def statements (tokens : List Token) : NodeList × ParseState :=
  (Parse.statementList (Parse.production (fuelFor tokens.length)) true).run (initialState tokens)

/-- Adds the node of the whole file, and puts faults of tokens and of syntax together by place. Of
two faults at one place the one of syntax comes first. -/
def parse (fileName : String) (text : List Char) : Program :=
  let scans := Scan.ofText text
  let (list, s) := statements (scans.map (·.token))
  let lexical := (scans.filterMap (·.error?)).map LexicalError.toSyntaxError
  let file := Node.holding .sourceFile 0 (Text.byteLength text) (.sourceFile ⟨list, fileName, text⟩)
  ⟨s.tree.add file, s.tree.size,
    (s.cursor.errors.reverse ++ lexical).mergeSort fun a b => a.start ≤ b.start⟩

end Program

end CallGuard
