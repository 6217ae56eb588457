import CallGuard.Proofs.Parser.Spans
import CallGuard.Proofs.Phrase.Statement

/-! A whole text is read by the rules of the language. -/
namespace CallGuard
namespace Phrase
open Parse

/- Below the rules that a text needs, nothing is read without a fault. -/
theorem deepestRules : SubRules fun _ => reportHere .nestedTooDeeply >>= fun _ => pure none := by
  have nothing {A : Slot → List Part → Prop} :
      Forms (reportHere .nestedTooDeeply >>= fun _ => pure none) A := .plain fun _ => .report .absent
  exact ⟨nothing, nothing, nothing, fun _ => nothing, nothing, nothing, fun _ => nothing,
    fun _ => nothing⟩

theorem unrolledRules (fuel : Nat) :
    SubRules (unrolled (fun _ => reportHere .nestedTooDeeply >>= fun _ => pure none) fuel) := by
  induction fuel with
  | zero => exact deepestRules
  | succ fuel ih => exact formsRule ih

end Phrase

namespace Program
open Parse Phrase

/- The statements of a text are spelled with all its tokens but the end token. -/
theorem statementsSpelt (text : List Char) :
    let list := (statements (tokensOf text)).1
    let s := (statements (tokensOf text)).2
    ∃ row last, last.isEnd = true ∧ Spelt s.tree (s.cursor.errors = []) row (tokensOf text) [last] ∧
      (present list.items).Sublist (nodes row) ∧
      (s.cursor.errors = [] → Statements list.items.reverse row) := by
  intro list s
  let deepest : SubParse := fun _ => reportHere .nestedTooDeeply >>= fun _ => pure none
  obtain ⟨same, taken, trace⟩ := statementsAgree text deepest (Nat.le_refl _)
  change statementList _ true _ = (list, s) at same
  obtain ⟨row, took, named, learnt⟩ := formsStatementList (unrolledRules _) true _
    (initialOrdered text) (unknown _)
  rw [same] at took named learnt
  have empty : s.cursor.upcoming = [] :=
    Token.rowEnds (traceOrdered trace (initialOrdered text)).row (statementsEnd text)
  have spelt := took.spelt
  rw [initialAhead (tokensRow text), Cursor.ahead, empty] at spelt
  exact ⟨row, s.cursor.current, statementsEnd text, spelt, named, learnt⟩

/- A text without faults is what the rules of the language make a file of. -/
theorem fileSpelt {fileName : String} {text : List Char} (clean : (parse fileName text).errors = []) :
    let p := parse fileName text
    ∃ n row last, p.tree.get? p.root = some n ∧ last.isEnd = true ∧
      Spelt p.tree True row (tokensOf text) [last] ∧ Made .file n.kind n.payload? row := by
  intro p
  obtain ⟨row, last, ends, spelt, _, learnt⟩ := statementsSpelt text
  obtain ⟨n, found, same⟩ := Tree.addNew (statements (tokensOf text)).2.tree
    (Node.holding .sourceFile 0 (Text.byteLength text)
      (.sourceFile ⟨(statements (tokensOf text)).1, fileName, text⟩))
  refine ⟨n, row, last, found, ends, spelt.later (Tree.growsAdd _ _) fun _ => parseClean clean, ?_⟩
  rw [same.kind, same.payload]
  exact .file (learnt (parseClean clean))

end Program
end CallGuard
