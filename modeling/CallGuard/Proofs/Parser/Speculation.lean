import CallGuard.Proofs.Parser.Placed
import CallGuard.Proofs.Parser.Spans
import CallGuard.Proofs.Token.Tiling

/-! What looking ahead leaves behind. A parser that goes back drops the faults behind as many as there
were and puts its scanner back to a mark; that is the state in which it began to look, also where it
looks ahead within looking ahead. The types that were added meanwhile never get a parent. -/
namespace CallGuard

namespace Scanner
variable {s : Scanner} {n m : Nat}

theorem iterateErrors (within : n ≤ m) : (advance^[n] s).errors <+: (advance^[m] s).errors := by
  induction m, within using Nat.le_induction with
  | base => exact List.prefix_refl _
  | succ m _ ih =>
    rw [Function.iterate_succ_apply']
    exact ih.trans (List.prefix_append _ _)

/- Going back from further on leads to where the mark was made. -/
theorem restoreLater (within : n ≤ m) : (advance^[m] s).restore (advance^[n] s).mark = advance^[n] s := by
  show Scanner.mk _ ((advance^[m] s).errors.take (advance^[n] s).errors.length) _ = _
  rw [← List.prefix_iff_eq_take.mp (iterateErrors within)]
  rfl

end Scanner

/- Where a parser stands, in its own terms: a scanner that has read the token at hand, and the faults
in the order in which they were reported. -/
structure Desk where
  scanner : Scanner
  prevStop : Nat
  errors : List SyntaxError
  lastErrorAt : Option Nat

structure Desk.Mark where
  scanner : Scanner.Mark
  prevStop : Nat
  errorCount : Nat
  lastErrorAt : Option Nat

namespace Desk

def mark (d : Desk) : Mark := ⟨d.scanner.mark, d.prevStop, d.errors.length, d.lastErrorAt⟩

/- Of the faults reported so far, as many stay as there were at the mark. -/
def restore (d : Desk) (m : Mark) : Desk :=
  ⟨d.scanner.restore m.scanner, m.prevStop, d.errors.take m.errorCount, m.lastErrorAt⟩

end Desk

namespace Cursor
open Program

/- The scanner that has read as many tokens of a text as are not ahead. -/
def scanner (text : List Char) (c : Cursor) : Scanner :=
  Scanner.advance^[(tokensOf text).length - c.upcoming.length] (.ofText text)

def desk (text : List Char) (c : Cursor) : Desk :=
  ⟨c.scanner text, c.prevStop, c.errors.reverse, c.lastErrorAt⟩

variable {text : List Char} {c c' : Cursor}

/- The scanner of a place in the text has read the token at hand. -/
theorem scannerToken (ahead : c.ahead <:+ tokensOf text) : (c.scanner text).token = c.current := by
  obtain ⟨behind, split⟩ := ahead
  obtain ⟨last, _, row, _⟩ := @Scanner.advanceAll text (.ofText text) 0 rfl rfl
  have total := congrArg List.length split
  simp only [Cursor.ahead, List.length_append, List.length_cons] at total
  have there : (tokensOf text)[behind.length]? = some c.current := by
    rw [← split]
    simp [Cursor.ahead]
  rw [tokensOf, Scan.ofText, row, List.getElem?_map, Option.map_eq_some_iff] at there
  obtain ⟨n, found, own⟩ := there
  obtain ⟨_, same⟩ := List.getElem?_eq_some_iff.mp found
  rw [List.getElem_range] at same
  have steps : (tokensOf text).length - c.upcoming.length = behind.length + 1 := by omega
  rw [scanner, steps, same]
  exact own

/- Truncation takes back what was reported since. -/
theorem deskRestored (fewer : c'.upcoming.length ≤ c.upcoming.length) (grown : c.errors <:+ c'.errors) :
    (c'.desk text).restore (c.desk text).mark = c.desk text := by
  have first : c.errors.reverse = c'.errors.reverse.take c.errors.reverse.length :=
    List.prefix_iff_eq_take.mp (List.reverse_prefix.mpr grown)
  show Desk.mk _ _ (c'.errors.reverse.take c.errors.reverse.length) _ = Desk.mk _ _ _ _
  rw [← first, show (c'.desk text).scanner.restore (c.desk text).mark.scanner = c.scanner text from
    Scanner.restoreLater (Nat.sub_le_sub_left fewer _)]
  rfl

end Cursor

namespace Tree
variable {t t' : Tree} {i j : NodeId}

theorem keptKind (grows : t.Grows t') {k : NodeKind} (kind : t.kind? i = some k) : t'.kind? i = some k := by
  obtain ⟨n, found, own⟩ := Option.map_eq_some_iff.mp kind
  obtain ⟨m, found', same⟩ := grows i n found
  rw [Tree.kind?, found', Option.map_some, same.kind, own]

/- Neither marks nor ends of nodes are links. -/
theorem flagsParent (marks : NodeFlags) : (t.addFlags j marks).parent? i = t.parent? i :=
  (modifyKeeps (f := fun n => { n with flags := n.flags ||| marks }) (fun _ => rfl) (fun _ => rfl) i).2

theorem stopParent (stop : Nat) : (t.setStop j stop).parent? i = t.parent? i :=
  (modifyKeeps (f := fun n => { n with stop := stop }) (fun _ => rfl) (fun _ => rfl) i).2

end Tree

namespace Parse
variable {strict : Bool} {s s' : ParseState} {ts : List Token} {looks : List Look} {ids : List NodeId}
  {l : Look}

/- Each look-ahead of a course runs a course of its own, on tokens that are ahead. -/
theorem courseLooks (course : Course strict s ts looks ids s') (ordered : s.cursor.Ordered)
    (listed : l ∈ looks) : l.before.cursor.Ordered ∧ l.before.cursor.ahead <:+ s.cursor.ahead ∧
      ∃ us later more, Course strict l.before us later more l.inside := by
  induction course with
  | rest | take | report | hole | flags => cases listed
  | chain before _ one two =>
    have trace := courseTrace before
    rcases List.mem_append.mp listed with first | later
    · exact one ordered first
    · obtain ⟨ordered', ahead, inner⟩ := two (traceOrdered trace ordered) later
      exact ⟨ordered', ahead.trans ((traceRun trace ordered).2 ▸ List.suffix_append _ _), inner⟩
  | forget _ _ ih => exact ih ordered listed
  | look way inner ih =>
    rcases List.mem_cons.mp listed with rfl | further
    · exact ⟨ordered, List.suffix_refl _, _, _, _, inner⟩
    · exact ih ordered further
  | nest _ _ ih => exact ih ordered listed
  | within _ _ ih => exact ih ordered listed
  | node _ _ _ _ _ _ _ _ _ _ ih => exact ih ordered listed
  | stretch _ ih => exact ih ordered listed

theorem straysAdded (strays : Strays s s') {i : NodeId} (new : s.tree.size ≤ i) (inside : i < s'.tree.size) :
    s'.tree.parent? i = none ∧ s'.tree.kind? i = some .typeReference := by
  obtain ⟨added, nodes, stray⟩ := strays.nodes
  have found : s'.tree.get? i = some s'.tree.nodes[i] := Array.getElem?_eq_getElem inside
  have late : s'.tree.nodes[i] ∈ added := by
    have there : s'.tree.nodes.toList[i]? = some s'.tree.nodes[i] := by
      rw [Array.getElem?_toList]
      exact found
    rw [nodes, List.getElem?_append_right (by simpa [Tree.size] using new)] at there
    exact List.mem_of_getElem? there
  obtain ⟨kind, _, root, _⟩ := stray _ late
  exact ⟨by rw [Tree.parent?, found]; exact root, by rw [Tree.kind?, found, Option.map_some, kind]⟩

/- The payloads of each form keep their places. -/
theorem straysPayloads (strays : Strays s s') (form : Form) :
    s.tree.payloadsOf form <+: s'.tree.payloadsOf form := by
  obtain ⟨added, nodes, _⟩ := strays.nodes
  unfold Tree.payloadsOf
  rw [nodes, List.filterMap_append]
  exact List.prefix_append _ _

theorem traceInside (trace : Trace strict s ts ids s') {i : NodeId} (held : i ∈ ids) : i < s'.tree.size := by
  induction trace with
  | rest | take | report | look | flags => cases held
  | chain _ after one two =>
    rcases List.mem_append.mp held with first | later
    · exact Nat.lt_of_lt_of_le (one first) (traceKeeps after).1.size
    · exact two later
  | forget part _ ih => exact ih (part.subset held)
  | nest _ _ ih => exact ih held
  | within _ _ ih => exact ih held
  | node | hole =>
    cases List.mem_singleton.mp held
    exact Nat.lt_of_lt_of_eq (Nat.lt_succ_self _) (Tree.addSize _ _).symm
  | stretch _ ih => simpa [Tree.size, Tree.setStop] using ih held

/- Nodes that were there before get no other parent. -/
theorem traceParents (trace : Trace strict s ts ids s') {i : NodeId} (old : i < s.tree.size) :
    s'.tree.parent? i = s.tree.parent? i := by
  have added {t : Tree} {n : Node} (root : n.parent? = none) (inside : i < t.size)
      (other : i ∉ n.links) : (t.add n).parent? i = t.parent? i := by
    rw [Tree.parentOfAdd t n root (Nat.le_of_lt inside), if_neg other]
  induction trace with
  | rest | take | report => rfl
  | chain before _ one two => exact (two (Nat.lt_of_lt_of_le old (traceKeeps before).1.size)).trans (one old)
  | forget _ _ ih => exact ih old
  | look _ ih => exact ih old
  | nest _ _ ih => exact ih old
  | within _ _ ih => exact ih old
  | node before _ root _ _ links _ _ _ ih =>
    obtain ⟨keeps, new⟩ := traceKeeps before
    refine (added root (Nat.lt_of_lt_of_le old keeps.size) fun own => ?_).trans (ih old)
    exact Nat.not_lt.mpr (new i (links.mem_iff.mp own)) old
  | hole => exact added rfl old nofun
  | flags s j marks => exact Tree.flagsParent marks
  | stretch _ ih => exact (Tree.stopParent _).trans (ih old)

/- What a look-ahead adds stays apart from the nodes that a reader holds. -/
theorem courseStrays (course : Course strict s ts looks ids s') (listed : l ∈ looks) {i : NodeId}
    (new : l.before.tree.size ≤ i) (added : i < l.after.tree.size) :
    s.tree.size ≤ i ∧ i < s'.tree.size ∧ i ∉ ids ∧ s'.tree.parent? i = none ∧
      s'.tree.kind? i = some .typeReference := by
  induction course with
  | rest | take | report | hole | flags => cases listed
  | chain before after one two =>
    obtain ⟨keeps, above⟩ := traceKeeps (courseTrace before)
    obtain ⟨keeps', above'⟩ := traceKeeps (courseTrace after)
    rcases List.mem_append.mp listed with first | later
    · obtain ⟨low, high, apart, root, kind⟩ := one first
      refine ⟨low, Nat.lt_of_lt_of_le high keeps'.size, fun member => ?_,
        (traceParents (courseTrace after) high).trans root, Tree.keptKind keeps'.grows kind⟩
      rcases List.mem_append.mp member with held | held
      · exact apart held
      · exact Nat.not_lt.mpr (above' i held) high
    · obtain ⟨low, high, apart, root, kind⟩ := two later
      refine ⟨Nat.le_trans keeps.size low, high, fun member => ?_, root, kind⟩
      rcases List.mem_append.mp member with held | held
      · exact Nat.not_lt.mpr low (traceInside (courseTrace before) held)
      · exact apart held
  | forget part _ ih =>
    obtain ⟨low, high, apart, rest⟩ := ih listed
    exact ⟨low, high, fun held => apart (part.subset held), rest⟩
  | look way inner ih =>
    rcases List.mem_cons.mp listed with rfl | further
    · exact ⟨new, added, List.not_mem_nil, straysAdded (way.traceless _).toStrays new added⟩
    · obtain ⟨low, high, _, rest⟩ := ih further
      exact ⟨low, high, List.not_mem_nil, rest⟩
  | nest _ _ ih => exact ih listed
  | within _ _ ih => exact ih listed
  | @node s s' _ _ ids n before _ root _ _ links _ _ _ _ ih =>
    obtain ⟨low, high, apart, free, kind⟩ := ih listed
    refine ⟨low, Nat.lt_of_lt_of_le high (Tree.keepsAdd s'.tree n).size, ?_, ?_,
      Tree.keptKind (Tree.growsAdd s'.tree n) kind⟩
    · exact fun held => Nat.ne_of_lt high (List.mem_singleton.mp held)
    · rw [Tree.parentOfAdd s'.tree n root (Nat.le_of_lt high), if_neg fun own => apart (links.mem_iff.mp own)]
      exact free
  | @stretch s s' _ _ j before ih =>
    obtain ⟨low, high, apart, free, kind⟩ := ih listed
    exact ⟨low, by simpa [Tree.size, Tree.setStop] using high, apart, (Tree.stopParent _).trans free,
      Tree.keptKind (Tree.growsStop s'.tree j _) kind⟩

end Parse

namespace Program
open Parse

/- Whatever the state, a look-ahead comes back to it and adds at most types that stand alone. While a
text is parsed, that is where cutting the faults and putting back the scanner lead, and none of
these types ever gets a parent. -/
theorem looksTraceless (fileName : String) (text : List Char) :
    let p := parse fileName text
    let begun := initialState (tokensOf text)
    let made := present (statements (tokensOf text)).1.items
    let done := (statements (tokensOf text)).2
    (∀ (way : LookAhead) (s : ParseState), Traceless s (lookAhead way.body s).2 ∧
      ∀ form, s.tree.payloadsOf form <+: (lookAhead way.body s).2.tree.payloadsOf form) ∧
    (∃ taken looks, Course true begun taken looks made done) ∧
    ∀ strict taken looks, Course strict begun taken looks made done → ∀ l ∈ looks,
      (l.before.cursor.scanner text).token = l.before.cursor.current ∧
      (l.inside.cursor.desk text).restore (l.before.cursor.desk text).mark = l.before.cursor.desk text ∧
      ∀ i, l.before.tree.size ≤ i → i < l.after.tree.size →
        p.tree.kind? i = some .typeReference ∧ p.tree.parent? i = none ∧ ¬ p.tree.Under p.root i := by
  intro p begun made done
  have ordered := initialOrdered text
  obtain ⟨_, taken, looks, course⟩ := statementsCourse text (fun _ => pure none) (Nat.le_refl _)
  refine ⟨fun way s => ⟨way.traceless s, straysPayloads (way.traceless s).toStrays⟩,
    ⟨taken, looks, course⟩, fun strict taken looks course l listed => ?_⟩
  obtain ⟨ordered', ahead, ts, further, ids, inner⟩ := courseLooks course ordered listed
  have trace := courseTrace inner
  rw [initialAhead (tokensRow text)] at ahead
  refine ⟨Cursor.scannerToken ahead, Cursor.deskRestored ?_ (traceErrors trace), fun i new added => ?_⟩
  · have lengths := traceLength trace ordered'
    omega
  · obtain ⟨_, inside, apart, root, kind⟩ := courseStrays course listed new added
    let file := Node.holding .sourceFile 0 (Text.byteLength text)
      (.sourceFile ⟨(statements (tokensOf text)).1, fileName, text⟩)
    have free : p.tree.parent? i = none := by
      rw [show p.tree = done.tree.add file from rfl,
        Tree.parentOfAdd done.tree file rfl (Nat.le_of_lt inside), if_neg (show i ∉ file.links from apart)]
      exact root
    refine ⟨Tree.keptKind (Tree.growsAdd done.tree file) kind, free, fun under => ?_⟩
    have top : p.root = i := Tree.underTop (treeChildren fileName text) under free
    exact Nat.ne_of_gt inside top

end Program
end CallGuard
