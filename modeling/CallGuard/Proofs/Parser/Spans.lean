import CallGuard.Proofs.Parser.Consumption
import CallGuard.Proofs.Parser.Placed

/-! Where nodes end. As long as nothing is reported, the span of a node holds the spans of its
children one behind the other: a node begins at the token at hand and ends with the token taken
last, and it takes a token. Where something was reported only the order of the starts is left. -/
namespace CallGuard

namespace Tree

/- A subtree reaches up to the end of its node, and both ends of the node are good places. -/
structure Spans (good : Nat → Prop) (i : NodeId) (n : Node) (mid : Nat) : Prop where
  reach : mid = n.stop
  begins : good n.start
  ends : good n.stop
  older : ∀ c ∈ n.kids, c < i

section
variable {t t' : Tree} {good : Nat → Prop} {lo hi stop : Nat} {i : NodeId} {ids : List NodeId}

theorem spansKept {n m : Node} {mid : Nat} (spans : Spans good i n mid) (kept : n.Kept m) :
    Spans good i m mid :=
  ⟨spans.reach.trans kept.stop.symm, kept.start ▸ spans.begins, kept.stop ▸ spans.ends,
    kept.toSame.kids ▸ spans.older⟩

theorem placedKeeps (placed : t.Placed (Spans good) lo ids hi) (keeps : t.Keeps t') :
    t'.Placed (Spans good) lo ids hi := by
  refine placedKept (P := fun _ => True) placed (fun _ _ => trivial) fun i n mid _ found spans => ?_
  obtain ⟨m, found', kept⟩ := keeps.kept i n found
  exact ⟨fun _ _ => trivial, m, found', kept.toSame, spansKept spans kept⟩

/- A node that is drawn out. Nothing under it is, because what it holds is older. -/
theorem placedStretch (placed : t.Placed (Spans good) lo [i] stop) (fine : good stop) :
    (t.setStop i stop).Placed (Spans good) lo [i] stop := by
  cases placed with
  | @cons _ mid _ _ n _ found behind inner spans outer =>
    have below : (t.setStop i stop).Placed (Spans good) n.start n.kids mid := by
      refine placedKept (P := (· < i)) inner spans.older fun j k reach before found' own => ?_
      refine ⟨fun c child => Nat.lt_trans (own.older c child) before, k, ?_, .refl k, own⟩
      rw [stopOther (Nat.ne_of_gt before), found']
    exact .cons (stopOwn found stop) behind (placedUpTo below (placedLe outer))
      ⟨rfl, spans.begins, fine, spans.older⟩ (.nil (Nat.le_refl _))

end

/-! ### Nested spans -/

def EndsBefore (t : Tree) (a b : NodeId) : Prop :=
  ∃ n m, t.get? a = some n ∧ t.get? b = some m ∧ n.stop ≤ m.start

/- The children of each node that can be reached stand within it and one behind the other. -/
def Nested (t : Tree) (root : NodeId) : Prop :=
  ∀ i, t.Under root i → ∃ n, t.get? i = some n ∧ n.start ≤ n.stop ∧
    (∀ c ∈ t.children i, ∃ m, t.get? c = some m ∧ n.start ≤ m.start ∧ m.stop ≤ n.stop) ∧
    (t.children i).Pairwise t.EndsBefore

section
variable {t : Tree} {root a b i j k : NodeId} {n m : Node}

theorem nestedOrder (nested : t.Nested root) (reached : t.Under root i) (found : t.get? i = some n) :
    n.start ≤ n.stop := by
  obtain ⟨_, same, order, _⟩ := nested i reached
  cases found.symm.trans same
  exact order

theorem nestedInside (nested : t.Nested root) (reached : t.Under root i) (under : t.Under i j)
    (found : t.get? i = some n) (found' : t.get? j = some m) : n.start ≤ m.start ∧ m.stop ≤ n.stop := by
  induction under generalizing n with
  | self =>
    cases found.symm.trans found'
    exact ⟨Nat.le_refl _, Nat.le_refl _⟩
  | @down i c j child _ ih =>
    obtain ⟨_, same, _, inside, _⟩ := nested i reached
    cases found.symm.trans same
    obtain ⟨l, there, left, right⟩ := inside c child
    have below := ih (underTrans reached (.down child (.self c))) there found'
    exact ⟨Nat.le_trans left below.1, Nat.le_trans below.2 right⟩

theorem beforeUnder (nested : t.Nested root) (before : t.EndsBefore a b) (reached : t.Under root a)
    (reached' : t.Under root b) (under : t.Under a i) (under' : t.Under b j)
    (found : t.get? i = some n) (found' : t.get? j = some m) : n.stop ≤ m.start := by
  obtain ⟨x, y, own, own', order⟩ := before
  calc n.stop ≤ x.stop := (nestedInside nested reached under own found).2
    _ ≤ y.start := order
    _ ≤ m.start := (nestedInside nested reached' under' own' found').1

/- Of two nodes, one is under the other or ends before the other begins. -/
theorem nestedBeside (nested : t.Nested root) (reached : t.Under root k) (one : t.Under k i)
    (two : t.Under k j) (found : t.get? i = some n) (found' : t.get? j = some m) :
    t.Under i j ∨ t.Under j i ∨ n.stop ≤ m.start ∨ m.stop ≤ n.start := by
  induction one with
  | self => exact .inl two
  | @down k c i child one ih =>
    have below {c : NodeId} (child : c ∈ t.children k) : t.Under root c :=
      underTrans reached (.down child (.self c))
    cases two with
    | self => exact .inr (.inl (.down child one))
    | @down _ c' _ child' two =>
      by_cases same : c = c'
      · exact ih (below child) (same ▸ two) found
      · obtain ⟨_, _, _, _, apart⟩ := nested k reached
        have : Std.Symm fun a b => t.EndsBefore a b ∨ t.EndsBefore b a := ⟨fun _ _ => Or.symm⟩
        have either : (t.children k).Pairwise fun a b => t.EndsBefore a b ∨ t.EndsBefore b a :=
          apart.imp .inl
        exact .inr (.inr ((either.forall child child' same).imp
          (beforeUnder nested · (below child) (below child') one two found found')
          (beforeUnder nested · (below child') (below child) two one found' found)))

end
end Tree

namespace Parse
variable {strict : Bool} {s s' : ParseState} {ts : List Token} {ids : List NodeId}

/- Only a node that was made on the way is drawn out, so those that were there keep their spans. -/
theorem traceKeeps (trace : Trace strict s ts ids s') :
    s.tree.Keeps s'.tree ∧ ∀ i ∈ ids, s.tree.size ≤ i := by
  induction trace with
  | rest => exact ⟨.refl _, by simp⟩
  | chain _ _ one two =>
    refine ⟨one.1.trans two.1, fun i member => ?_⟩
    rcases List.mem_append.mp member with first | later
    · exact one.2 i first
    · exact Nat.le_trans one.1.size (two.2 i later)
  | forget part _ ih => exact ⟨ih.1, fun i member => ih.2 i (part.subset member)⟩
  | take => exact ⟨.refl _, by simp⟩
  | report => exact ⟨.refl _, by simp⟩
  | look _ ih => exact ⟨ih.1, by simp⟩
  | nest _ _ ih => exact ih
  | within _ _ ih => exact ih
  | node _ _ _ _ _ _ _ _ _ ih =>
    refine ⟨ih.1.trans (Tree.keepsAdd _ _), fun i member => ?_⟩
    cases List.mem_singleton.mp member
    exact ih.1.size
  | hole =>
    refine ⟨Tree.keepsAdd _ _, fun i member => ?_⟩
    cases List.mem_singleton.mp member
    exact Nat.le_refl _
  | flags => exact ⟨Tree.keepsFlags _ _ _, by simp⟩
  | @stretch s s' ts i _ ih =>
    have new := ih.2 i (List.mem_singleton.mpr rfl)
    refine ⟨⟨Nat.le_trans ih.1.size (Nat.le_of_eq (by simp [Tree.size, Tree.setStop])),
      fun j n found => ?_⟩, ih.2⟩
    have old := Nat.lt_of_lt_of_le (Tree.getInside found) new
    obtain ⟨m, found', kept⟩ := ih.1.kept j n found
    exact ⟨m, by rw [Tree.stopOther (Nat.ne_of_gt old), found'], kept⟩

/- The end that a node gets is that of the token taken last. -/
theorem traceLast (trace : Trace strict s ts ids s') :
    s'.cursor.prevStop = (ts.getLast?.map (·.stop)).getD s.cursor.prevStop := by
  have took (c : Cursor) : c.next.prevStop = c.current.stop := by
    unfold Cursor.next
    split <;> rfl
  induction trace with
  | rest => rfl
  | @chain s s' s'' ts us _ _ _ _ one two =>
    rw [two, List.getLast?_append]
    cases us.getLast? with
    | none => exact one
    | some t => rfl
  | forget _ _ ih => exact ih
  | take => exact took _
  | report s fault =>
    show (s.cursor.report _ _ _).prevStop = _
    unfold Cursor.report
    split <;> rfl
  | look => rfl
  | nest _ _ ih => exact ih
  | within _ _ ih => exact ih
  | node _ _ _ _ _ _ _ _ _ ih => exact ih
  | hole => exact took _
  | flags => rfl
  | stretch _ ih => exact ih

section
variable {good : Nat → Prop}

/- The tokens ahead begin and end at good places. -/
def Bounded (good : Nat → Prop) (s : ParseState) : Prop :=
  ∀ t ∈ s.cursor.ahead, good t.start ∧ good t.stop

theorem boundedLater (trace : Trace strict s ts ids s') (ordered : s.cursor.Ordered)
    (bounded : Bounded good s) : Bounded good s' := by
  intro t member
  refine bounded t ?_
  rw [(traceRun trace ordered).2]
  exact List.mem_append_right ts member

theorem boundedLast (trace : Trace strict s ts ids s') (ordered : s.cursor.Ordered)
    (bounded : Bounded good s) (some : ts ≠ []) : good s'.cursor.prevStop := by
  rw [traceLast trace, List.getLast?_eq_some_getLast some]
  refine (bounded _ ?_).2
  rw [(traceRun trace ordered).2]
  exact List.mem_append_left _ (List.getLast_mem some)

/- What was made stands between the token at hand and the token taken last; without a token nothing
is made. -/
theorem traceSpans (trace : Trace true s ts ids s') (ordered : s.cursor.Ordered)
    (bounded : Bounded good s) (clean : s'.cursor.errors = []) :
    (ts = [] → ids = []) ∧ (ts ≠ [] →
      s'.tree.Placed (Tree.Spans good) s.cursor.current.start ids s'.cursor.prevStop) := by
  induction trace with
  | rest => exact ⟨fun _ => rfl, fun some => absurd rfl some⟩
  | @chain s s' s'' ts us ids more before after one two =>
    have ordered' := traceOrdered before ordered
    obtain ⟨nothing, made⟩ := one ordered bounded (traceClean after clean)
    obtain ⟨nothing', made'⟩ := two ordered' (boundedLater before ordered bounded) clean
    refine ⟨fun both => ?_, fun some => ?_⟩
    · obtain ⟨first, second⟩ := List.append_eq_nil_iff.mp both
      rw [nothing first, nothing' second]
      rfl
    · by_cases first : ts = []
      · subst first
        rw [nothing rfl, ← traceStill before ordered]
        exact made' some
      · have placed := Tree.placedKeeps (made first) (traceKeeps after).1
        by_cases second : us = []
        · rw [nothing' second, List.append_nil]
          exact Tree.placedUpTo placed (traceStop after ordered').1
        · exact Tree.placedAppend placed (Tree.placedFrom (made' second) (Token.rowBehind ordered'.row))
  | forget part _ ih =>
    obtain ⟨nothing, made⟩ := ih ordered bounded clean
    refine ⟨fun first => ?_, fun some => Tree.placedPart (made some) part⟩
    rw [nothing first] at part
    exact List.sublist_nil.mp part
  | @take s more =>
    exact ⟨fun _ => rfl, fun some => .nil (Nat.le_of_lt
      ((traceStop (.take more : Trace true s _ _ _) ordered).2 some))⟩
  | report s fault => exact absurd clean (reportFails ordered fault)
  | look => exact ⟨fun _ => rfl, fun some => absurd rfl some⟩
  | nest _ _ ih => exact ih ordered bounded clean
  | within _ _ ih => exact ih ordered bounded clean
  | @node s s' ts ids n before agrees root place kids links moves stops takes ih =>
    have some := takes rfl clean
    have stop := stops some
    have placed := (ih ordered bounded clean).2 some
    obtain ⟨m, found, kept⟩ := Tree.addKept s'.tree n
    refine ⟨fun none => absurd none some, fun _ => ?_⟩
    rw [← place]
    refine Tree.placedAdd found kept.toSame ?_ ?_
    · rw [place, kids]
      exact Tree.placedKeeps placed (Tree.keepsAdd _ _)
    · refine Tree.spansKept ⟨stop.symm, ?_, ?_, fun c child => ?_⟩ kept
      · rw [place]
        exact (bounded _ List.mem_cons_self).1
      · rw [stop]
        exact boundedLast before ordered bounded some
      · rw [kids] at child
        obtain ⟨_, _, there, _⟩ := Tree.placedMem placed child
        exact Tree.getInside there
  | @hole s more =>
    obtain ⟨m, found, kept⟩ := Tree.addKept s.tree (omitted s.cursor.current.start)
    have place := (bounded _ List.mem_cons_self).1
    have stop := (traceStop (.take more : Trace true s _ _ _) ordered).2 (List.cons_ne_nil _ _)
    refine ⟨fun nothing => absurd nothing (List.cons_ne_nil _ _), fun _ => ?_⟩
    refine Tree.placedUpTo (Tree.placedAdd found kept.toSame (.nil (Nat.le_refl _)) ?_) (Nat.le_of_lt stop)
    exact Tree.spansKept ⟨rfl, place, place, fun c child => by cases child⟩ kept
  | flags => exact ⟨fun _ => rfl, fun some => absurd rfl some⟩
  | @stretch s s' ts i before ih =>
    obtain ⟨nothing, made⟩ := ih ordered bounded clean
    have some : ts ≠ [] := fun first => List.cons_ne_nil _ _ (nothing first)
    exact ⟨nothing, fun _ => Tree.placedStretch (made some) (boundedLast before ordered bounded some)⟩

end
end Parse

namespace Program
open Parse

theorem initialBounded (text : List Char) :
    Bounded (Text.Boundary text) (initialState (tokensOf text)) := by
  intro t member
  rw [initialAhead (tokensRow text)] at member
  exact Scan.allBoundaries (List.nil_append text) rfl t member

/- Faults of both kinds are reported together. -/
theorem parseClean {fileName : String} {text : List Char} (clean : (parse fileName text).errors = []) :
    (statements (tokensOf text)).2.cursor.errors = [] := by
  have none := List.eq_nil_of_length_eq_zero
    ((List.length_mergeSort _).symm.trans (congrArg List.length clean))
  exact List.reverse_eq_nil_iff.mp (List.append_eq_nil_iff.mp none).1

/- A text without faults is one node that reaches from its first byte to its last. -/
theorem treeSpans {fileName : String} {text : List Char} (clean : (parse fileName text).errors = []) :
    let p := parse fileName text
    p.tree.Placed (Tree.Spans (Text.Boundary text)) 0 [p.root] (Text.byteLength text) := by
  intro p
  let file := Node.holding .sourceFile 0 (Text.byteLength text)
    (.sourceFile ⟨(statements (tokensOf text)).1, fileName, text⟩)
  obtain ⟨_, taken, trace⟩ := statementsAgree text (fun _ => pure none) (Nat.le_refl _)
  have ordered := initialOrdered text
  have bounded := initialBounded text
  obtain ⟨nothing, made⟩ := traceSpans trace ordered bounded (parseClean clean)
  have inside : (statements (tokensOf text)).2.tree.Placed (Tree.Spans (Text.Boundary text)) 0 file.kids
      (Text.byteLength text) := by
    show Tree.Placed _ _ 0 (present (statements (tokensOf text)).1.items) _
    by_cases some : taken = []
    · rw [nothing some]
      exact .nil (Nat.zero_le _)
    · exact Tree.placedFrom (Tree.placedUpTo (made some)
        (Text.boundaryInside (boundedLast trace ordered bounded some))) (Nat.zero_le _)
  obtain ⟨m, found, kept⟩ := Tree.addKept (statements (tokensOf text)).2.tree file
  refine Tree.placedAdd found kept.toSame (Tree.placedKeeps inside (Tree.keepsAdd _ _))
    (Tree.spansKept ⟨rfl, ⟨[], text, rfl, rfl⟩, ⟨text, [], List.append_nil _, rfl⟩, fun c child => ?_⟩ kept)
  obtain ⟨_, _, there, _⟩ := Tree.placedMem inside child
  exact Tree.getInside there

/- Where nothing was reported, a node begins and ends between characters and has its children inside, one behind
the other. -/
theorem spansFit {fileName : String} {text : List Char} (clean : (parse fileName text).errors = []) {i : NodeId}
    (under : (parse fileName text).tree.Under (parse fileName text).root i) :
    let t := (parse fileName text).tree
    ∃ n, t.get? i = some n ∧ n.start ≤ n.stop ∧ Text.Boundary text n.start ∧ Text.Boundary text n.stop ∧
      (∀ c ∈ t.children i, ∃ m, t.get? c = some m ∧ n.start ≤ m.start ∧ m.stop ≤ n.stop) ∧
      (t.children i).Pairwise fun a b =>
        ∃ k m, t.get? a = some k ∧ t.get? b = some m ∧ k.stop ≤ m.start := by
  intro t
  have forest : t.Forest := treeForest fileName text
  obtain ⟨n, mid, found, _, _, spans, below⟩ :=
    Tree.placedUnder forest under (treeSpans clean) (List.mem_singleton.mpr rfl)
  have kids : t.children i = n.kids := Tree.childrenKids forest found
  cases spans.reach
  rw [kids]
  refine ⟨n, found, Tree.placedLe below, spans.begins, spans.ends, fun c child => ?_,
    (Tree.placedApart below).imp ?_⟩
  · obtain ⟨m, _, found', behind, reach, own, _⟩ := Tree.placedMem below child
    exact ⟨m, found', behind, own.reach ▸ reach⟩
  · rintro a b ⟨k, m, mid, found, found', own, apart⟩
    exact ⟨k, m, found, found', own.reach ▸ apart⟩

theorem treeNested {fileName : String} {text : List Char}
    (clean : (parse fileName text).errors = []) :
    (parse fileName text).tree.Nested (parse fileName text).root := by
  intro i reached
  obtain ⟨n, found, order, _, _, inside, apart⟩ := spansFit clean reached
  exact ⟨n, found, order, inside, apart⟩

end Program
end CallGuard
