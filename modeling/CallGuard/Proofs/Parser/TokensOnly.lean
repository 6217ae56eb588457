import CallGuard.Proofs.Parser.Corresponding
import CallGuard.Proofs.Parser.Forest
import Mathlib.Data.List.Forall2

/-! A program is a matter of its tokens. Two texts whose tokens differ in nothing but their places, and so may
differ in blanks, comments and the spelling of literals, read as trees that differ in nothing but places,
with the same faults of the grammar at corresponding tokens. What the scanner says of a single token or of a
comment is reported among them and is not asked for here: a comment without end leaves no token behind. -/
namespace CallGuard

/- All of a token but its places. -/
def Token.seen (t : Token) : TokenKind × String × Bool := (t.kind, t.value, t.afterLineBreak)

/- Tokens at one index of two rows begin at these offsets. -/
def Token.Beside (ts ts' : List Token) (i i' : Nat) : Prop :=
  ∃ (n : Nat) (t t' : Token), ts[n]? = some t ∧ ts'[n]? = some t' ∧ t.start = i ∧ t'.start = i'

/- One fault in two texts, at corresponding tokens. -/
structure SyntaxError.Corresponds (ts ts' : List Token) (e e' : SyntaxError) : Prop where
  code : e'.fault.code = e.fault.code
  message : e'.fault.message = e.fault.message
  place : Token.Beside ts ts' e.start e'.start

section
variable {ts ts' : List Token}

/- No two tokens of a row begin at one offset. -/
theorem Token.indexOf (apart : ts.Pairwise fun t u => t.start < u.start) {n m : Nat} {t u : Token}
    (one : ts[n]? = some t) (two : ts[m]? = some u) (place : t.start = u.start) : n = m := by
  have single : (ts.map (·.start)).Nodup := List.pairwise_map.mpr (apart.imp Nat.ne_of_lt)
  have inside : n < (ts.map (·.start)).length :=
    (List.length_map ..).symm ▸ (List.getElem?_eq_some_iff.mp one).1
  refine (List.getElem?_inj inside single).mp ?_
  rw [List.getElem?_map, List.getElem?_map, one, two, Option.map_some, Option.map_some, place]

def Places.beside (apart : ts.Pairwise fun t u => t.start < u.start)
    (apart' : ts'.Pairwise fun t u => t.start < u.start) : Places where
  same := Token.Beside ts ts'
  unique := by
    constructor
    · rintro _ _ _ ⟨n, t, t', one, one', rfl, rfl⟩ ⟨m, u, u', two, two', rfl, place⟩
      cases Token.indexOf apart' one' two' place.symm
      exact congrArg Token.start (Option.some.inj (one.symm.trans two))
    · rintro _ _ _ ⟨n, t, t', one, one', rfl, rfl⟩ ⟨m, u, u', two, two', place, rfl⟩
      cases Token.indexOf apart one two place.symm
      exact congrArg Token.start (Option.some.inj (one'.symm.trans two'))

/- Tokens that look the same stand beside each other. -/
theorem Places.besideLike (apart : ts.Pairwise fun t u => t.start < u.start)
    (apart' : ts'.Pairwise fun t u => t.start < u.start) (tokens : ts'.map Token.seen = ts.map Token.seen) :
    List.Forall₂ (Token.Like (beside apart apart')) ts ts' := by
  have long : ts'.length = ts.length := by simpa using congrArg List.length tokens
  refine List.forall₂_iff_get.mpr ⟨long.symm, fun n inside inside' => ?_⟩
  have seen : (ts'.map Token.seen)[n]? = (ts.map Token.seen)[n]? := congrArg (·[n]?) tokens
  rw [List.getElem?_map, List.getElem?_map, List.getElem?_eq_getElem inside, List.getElem?_eq_getElem inside',
    Option.map_some, Option.map_some, Option.some_inj] at seen
  obtain ⟨kind, rest⟩ := Prod.mk.inj seen
  obtain ⟨value, afterLineBreak⟩ := Prod.mk.inj rest
  exact ⟨kind, value, afterLineBreak, n, _, _, List.getElem?_eq_getElem inside,
    List.getElem?_eq_getElem inside', rfl, rfl⟩

end

/-! ### The order of the faults -/

theorem SyntaxError.likeGrammar {P : Places} {es es' : List SyntaxError}
    (like : List.Forall₂ (SyntaxError.Like P) es es') :
    (∀ e ∈ es, e.fault.ofGrammar = true) ∧ ∀ e ∈ es', e.fault.ofGrammar = true := by
  induction like with
  | nil => exact ⟨nofun, nofun⟩
  | cons same _ ih =>
    exact ⟨List.forall_mem_cons.mpr ⟨same.grammar, ih.1⟩,
      List.forall_mem_cons.mpr ⟨same.fault ▸ same.grammar, ih.2⟩⟩

/- Faults are reported in the order of the text, newest first, and none behind the token at hand. -/
structure Cursor.Sorted (c : Cursor) : Prop where
  order : c.errors.Pairwise fun later earlier => earlier.start ≤ later.start
  reached : ∀ e ∈ c.errors, e.start ≤ c.current.start

theorem Cursor.nextErrors (c : Cursor) : c.next.errors = c.errors := by
  unfold Cursor.next
  split <;> rfl

theorem Cursor.reportSorted {c : Cursor} (sorted : c.Sorted) (length : Nat) (fault : SyntaxFault) :
    (c.report c.current.start length fault).Sorted := by
  unfold Cursor.report
  split
  · exact sorted
  · exact ⟨.cons sorted.reached sorted.order, List.forall_mem_cons.mpr ⟨Nat.le_refl _, sorted.reached⟩⟩

namespace Parse

theorem runSorted {s s' : ParseState} {ids : List NodeId} (run : Run s ids s') (ordered : s.cursor.Ordered)
    (sorted : s.cursor.Sorted) : s'.cursor.Sorted := by
  induction run with
  | rest => exact sorted
  | chain before _ one two => exact two (runOrdered before ordered) (one ordered sorted)
  | forget _ _ ih => exact ih ordered sorted
  | advance s =>
    show s.cursor.next.Sorted
    refine ⟨?_, ?_⟩ <;> rw [Cursor.nextErrors]
    · exact sorted.order
    · exact fun e own => Nat.le_trans (sorted.reached e own) (nextPlace ordered).1
  | report s fault => exact Cursor.reportSorted sorted _ _
  | look => exact sorted
  | nest _ _ ih => exact ih ordered sorted
  | within _ _ ih => exact ih ordered sorted
  | node _ _ _ _ _ _ _ ih => exact ih ordered sorted
  | flags => exact sorted
  | stop => exact sorted

end Parse

/- Sorting leaves a sorted part in its order, whatever is put between. -/
theorem SyntaxError.sortedPart {grammar lexical : List SyntaxError}
    (sorted : grammar.Pairwise fun a b => a.start ≤ b.start) (one : ∀ e ∈ grammar, e.fault.ofGrammar = true)
    (two : ∀ e ∈ lexical, ¬ e.fault.ofGrammar = true) :
    ((grammar ++ lexical).mergeSort fun a b => a.start ≤ b.start).filter (·.fault.ofGrammar) = grammar := by
  have order (a b : SyntaxError) : (decide (a.start ≤ b.start) || decide (b.start ≤ a.start)) = true := by
    simpa using Nat.le_total a.start b.start
  have part : grammar.Sublist ((grammar ++ lexical).mergeSort fun a b => a.start ≤ b.start) :=
    List.sublist_mergeSort (fun a b c => by simpa using Nat.le_trans) order (sorted.imp (by simp))
      (List.sublist_append_left _ _)
  have all := part.filter (·.fault.ofGrammar)
  rw [List.filter_eq_self.mpr one] at all
  refine (all.eq_of_length ?_).symm
  rw [((List.mergeSort_perm _ _).filter _).length_eq, List.filter_append, List.filter_eq_self.mpr one,
    List.filter_eq_nil_iff.mpr two, List.append_nil]

namespace Program

/- The faults of the grammar, without those of single tokens. -/
def syntaxErrors (p : Program) : List SyntaxError := p.errors.filter (·.fault.ofGrammar)

theorem syntaxErrorsReported {fileName : String} {text : List Char}
    (grammar : ∀ e ∈ (statements (tokensOf text)).2.cursor.errors, e.fault.ofGrammar = true) :
    (parse fileName text).syntaxErrors = (statements (tokensOf text)).2.cursor.errors.reverse := by
  have start : (initialState (tokensOf text)).cursor.Sorted := by
    cases tokensOf text <;> exact ⟨.nil, nofun⟩
  have sorted := Parse.runSorted (statementsRun text) (initialOrdered text) start
  refine SyntaxError.sortedPart (List.pairwise_reverse.mpr sorted.order)
    (fun e own => grammar e (List.mem_reverse.mp own)) ?_
  rintro e own
  obtain ⟨_, _, rfl⟩ := List.mem_map.mp own
  exact Bool.false_ne_true

theorem initialLike {P : Places} {ts ts' : List Token} (row : Token.Row 0 ts)
    (like : List.Forall₂ (Token.Like P) ts ts') : (initialState ts).Like P (initialState ts') := by
  cases like with
  | nil => cases row
  | cons first later => exact ⟨⟨first, later, .nil, .none⟩, rfl, rfl, .refl _⟩

/- Whole files are read alike from rows that are alike. -/
theorem statementsLike {P : Places} {ts ts' : List Token} (row : Token.Row 0 ts)
    (like : List.Forall₂ (Token.Like P) ts ts') :
    Parse.RowLike (statements ts).1 (statements ts').1 ∧ (statements ts).2.Like P (statements ts').2 := by
  have fuel : fuelFor ts'.length = fuelFor ts.length := congrArg fuelFor like.length_eq.symm
  unfold statements
  rw [fuel]
  exact Parse.likeStatementList (Parse.steadyProduction _) true _ _ (initialLike row like)

theorem childrenLike {fileName fileName' : String} {text text' : List Char}
    (like : (parse fileName text).tree.Like (parse fileName' text').tree) (i : NodeId) :
    (parse fileName' text').tree.children i = (parse fileName text).tree.children i := by
  have node := like.nodes i
  cases found : (parse fileName text).tree.get? i with
  | none =>
    rw [found, Option.map_none, Option.map_eq_none_iff] at node
    rw [Tree.children, Tree.children, found, node]
  | some n =>
    rw [found, Option.map_some] at node
    obtain ⟨m, found', same⟩ := Option.map_eq_some_iff.mp node
    rw [Tree.childrenKids (treeForest fileName text) found, Tree.childrenKids (treeForest fileName' text') found']
    exact Node.likeKids same

end Program
end CallGuard
