import CallGuard.Proofs.Parser.Forest
import CallGuard.Proofs.Tree.Walk

/-! Where nodes begin. In the order in which a tree is walked no node begins before the one that
was visited last, also where the text is malformed; and a call that begins where an earlier call
begins stands under it, because each call takes a token. -/
namespace CallGuard

namespace Tree

/- The nodes of a row and all nodes under them begin between `lo` and `hi`, each subtree behind
the one before it. What holds of a node, and of the place that its subtree reaches to, is `fits`. -/
inductive Placed (t : Tree) (fits : NodeId → Node → Nat → Prop) : Nat → List NodeId → Nat → Prop where
  | nil {lo hi} (order : lo ≤ hi) : Placed t fits lo [] hi
  | cons {lo mid hi i n rest} (found : t.get? i = some n) (behind : lo ≤ n.start)
      (inner : Placed t fits n.start n.kids mid) (fit : fits i n mid)
      (outer : Placed t fits mid rest hi) : Placed t fits lo (i :: rest) hi

section
variable {t t' : Tree} {fits : NodeId → Node → Nat → Prop} {lo mid hi earlier later : Nat}
  {i j : NodeId} {n : Node} {ids more fewer : List NodeId}

theorem placedLe (placed : t.Placed fits lo ids hi) : lo ≤ hi := by
  induction placed with
  | nil order => exact order
  | cons _ behind _ _ _ inner outer => exact Nat.le_trans (Nat.le_trans behind inner) outer

theorem placedFrom (placed : t.Placed fits lo ids hi) (order : earlier ≤ lo) :
    t.Placed fits earlier ids hi := by
  cases placed with
  | nil order' => exact .nil (Nat.le_trans order order')
  | cons found behind inner fit outer =>
    exact .cons found (Nat.le_trans order behind) inner fit outer

theorem placedAppend (placed : t.Placed fits lo ids mid) (next : t.Placed fits mid more hi) :
    t.Placed fits lo (ids ++ more) hi := by
  induction placed with
  | nil order => exact placedFrom next order
  | cons found behind inner fit _ _ ih => exact .cons found behind inner fit (ih next)

theorem placedSplit (placed : t.Placed fits lo (ids ++ more) hi) :
    ∃ mid, t.Placed fits lo ids mid ∧ t.Placed fits mid more hi := by
  induction ids generalizing lo with
  | nil => exact ⟨lo, .nil (Nat.le_refl lo), placed⟩
  | cons i ids ih =>
    cases placed with
    | cons found behind inner fit outer =>
      obtain ⟨mid, first, next⟩ := ih outer
      exact ⟨mid, .cons found behind inner fit first, next⟩

theorem placedUpTo (placed : t.Placed fits lo ids hi) (order : hi ≤ later) :
    t.Placed fits lo ids later := by
  have all := placedAppend placed (.nil order)
  rwa [List.append_nil] at all

theorem placedPart (placed : t.Placed fits lo ids hi) (part : fewer.Sublist ids) :
    t.Placed fits lo fewer hi := by
  induction placed generalizing fewer with
  | nil order =>
    cases part
    exact .nil order
  | cons found behind inner fit _ _ ih =>
    cases part with
    | cons _ part => exact placedFrom (ih part) (Nat.le_trans behind (placedLe inner))
    | cons_cons _ part => exact .cons found behind inner fit (ih part)

/- A change of the tree that touches none of the nodes in question. -/
theorem placedKept {P : NodeId → Prop} (placed : t.Placed fits lo ids hi)
    (all : ∀ i ∈ ids, P i)
    (keeps : ∀ i n mid, P i → t.get? i = some n → fits i n mid →
      (∀ c ∈ n.kids, P c) ∧ ∃ m, t'.get? i = some m ∧ n.Same m ∧ fits i m mid) :
    t'.Placed fits lo ids hi := by
  induction placed with
  | nil order => exact .nil order
  | @cons lo mid hi i n rest found behind _ fit _ inner outer =>
    obtain ⟨below, m, found', same, fit'⟩ := keeps i n mid (all i List.mem_cons_self) found fit
    refine .cons found' (same.start ▸ behind) ?_ fit'
      (outer fun j member => all j (List.mem_cons_of_mem _ member))
    rw [same.kids, same.start]
    exact inner below

/- A node that is added behind the nodes that it takes. -/
theorem placedAdd {n m : Node} (found : (t.add n).get? t.size = some m) (same : n.Same m)
    (placed : (t.add n).Placed fits n.start n.kids hi) (fit : fits t.size m hi) :
    (t.add n).Placed fits n.start [t.size] hi := by
  refine .cons found (Nat.le_of_eq same.start.symm) ?_ fit (.nil (Nat.le_refl hi))
  rw [same.start, same.kids]
  exact placed

theorem placedMem (placed : t.Placed fits lo ids hi) (member : i ∈ ids) : ∃ n mid,
    t.get? i = some n ∧ lo ≤ n.start ∧ mid ≤ hi ∧ fits i n mid ∧ t.Placed fits n.start n.kids mid := by
  induction placed with
  | nil => cases member
  | @cons lo mid hi k n rest found behind below fit beside _ outer =>
    rcases List.mem_cons.mp member with rfl | other
    · exact ⟨n, mid, found, behind, placedLe beside, fit, below⟩
    · obtain ⟨m, reach, found', behind', kept⟩ := outer other
      exact ⟨m, reach, found', Nat.le_trans (Nat.le_trans behind (placedLe below)) behind', kept⟩

/- Every node that can be reached. -/
theorem placedUnder (forest : t.Forest) (under : t.Under i j) (placed : t.Placed fits lo ids hi)
    (member : i ∈ ids) : ∃ n mid, t.get? j = some n ∧ lo ≤ n.start ∧ mid ≤ hi ∧ fits j n mid ∧
      t.Placed fits n.start n.kids mid := by
  induction under generalizing lo ids hi with
  | self => exact placedMem placed member
  | down child _ ih =>
    obtain ⟨n, mid, found, behind, order, _, below⟩ := placedMem placed member
    rw [childrenKids forest found] at child
    obtain ⟨m, reach, found', behind', order', kept⟩ := ih below child
    exact ⟨m, reach, found', Nat.le_trans behind behind', Nat.le_trans order' order, kept⟩

/- What stands behind a node in a row begins behind its subtree. -/
theorem placedApart (placed : t.Placed fits lo ids hi) : ids.Pairwise fun a b =>
    ∃ k m mid, t.get? a = some k ∧ t.get? b = some m ∧ fits a k mid ∧ mid ≤ m.start := by
  induction placed with
  | nil => exact .nil
  | @cons lo mid hi i n rest found _ _ fit beside _ outer =>
    refine List.pairwise_cons.mpr ⟨fun j member => ?_, outer⟩
    obtain ⟨m, _, found', behind, _⟩ := placedMem beside member
    exact ⟨n, m, mid, found, found', fit, behind⟩

end

/- A call begins before everything that stands behind its subtree. -/
def CallReaches (_ : NodeId) (n : Node) (mid : Nat) : Prop := n.kind.isCall = true → n.start < mid

section
variable {t t' : Tree} {lo mid hi : Nat} {ids : List NodeId}

theorem placedGrows (placed : t.Placed CallReaches lo ids hi) (grows : t.Grows t') :
    t'.Placed CallReaches lo ids hi := by
  refine placedKept (P := fun _ => True) placed (fun _ _ => trivial) fun i n mid _ found fit => ?_
  obtain ⟨m, found', same⟩ := grows i n found
  refine ⟨fun _ _ => trivial, m, found', same, ?_⟩
  unfold CallReaches
  rw [same.kind, same.start]
  exact fit

/- The order in which a walk visits two nodes. -/
def Precedes (t : Tree) (a b : NodeId) : Prop :=
  ∀ n m, t.get? a = some n → t.get? b = some m →
    n.start ≤ m.start ∧ (n.kind.isCall = true → m.start = n.start → t.Under a b)

/- A walk through nodes that begin between `lo` and `hi`. -/
structure Charted (t : Tree) (lo : Nat) (ids visited : List NodeId) (hi : Nat) : Prop where
  walk : t.Walk ids visited
  inside : ∀ i ∈ visited, ∀ n, t.get? i = some n →
    lo ≤ n.start ∧ n.start ≤ hi ∧ (n.kind.isCall = true → n.start < hi)
  order : visited.Pairwise t.Precedes

theorem chartedCons {i : NodeId} {n : Node} {rest inner outer : List NodeId} (forest : t.Forest)
    (found : t.get? i = some n) (behind : lo ≤ n.start)
    (call : n.kind.isCall = true → n.start < mid) (below : n.start ≤ mid) (after : mid ≤ hi)
    (down : t.Charted n.start n.kids inner mid) (along : t.Charted mid rest outer hi) :
    t.Charted lo (i :: rest) (i :: (inner ++ outer)) hi := by
  have walk : t.Walk (t.children i) inner := by
    rw [childrenKids forest found]
    exact down.walk
  have apart (a : NodeId) (k : Node) (b : NodeId) (m : Node) (outside : b ∈ outer) (le : k.start ≤ mid)
      (lt : k.kind.isCall = true → k.start < mid) (there : t.get? b = some m) :
      k.start ≤ m.start ∧ (k.kind.isCall = true → m.start = k.start → t.Under a b) := by
    have late := (along.inside b outside m there).1
    refine ⟨Nat.le_trans le late, fun isCall same => ?_⟩
    exact absurd (same ▸ lt isCall) (Nat.not_lt.mpr late)
  refine ⟨.cons walk along.walk, ?_, List.pairwise_cons.mpr ⟨?_, List.pairwise_append.mpr
    ⟨down.order, along.order, ?_⟩⟩⟩
  · intro j member k there
    rcases List.mem_cons.mp member with rfl | member
    · cases found.symm.trans there
      exact ⟨behind, Nat.le_trans below after, fun isCall => Nat.lt_of_lt_of_le (call isCall) after⟩
    · rcases List.mem_append.mp member with inside | outside
      · obtain ⟨le, le', lt⟩ := down.inside j inside k there
        exact ⟨Nat.le_trans behind le, Nat.le_trans le' after,
          fun isCall => Nat.lt_of_lt_of_le (lt isCall) after⟩
      · obtain ⟨le, le', lt⟩ := along.inside j outside k there
        exact ⟨Nat.le_trans (Nat.le_trans behind below) le, le', lt⟩
  · intro j member k m there there'
    cases found.symm.trans there
    rcases List.mem_append.mp member with inside | outside
    · obtain ⟨c, child, under⟩ := (walkMem walk).mp inside
      exact ⟨(down.inside j inside m there').1, fun _ _ => .down child under⟩
    · exact apart i n j m outside below call there'
  · intro a inside b outside k m there there'
    obtain ⟨_, le, lt⟩ := down.inside a inside k there
    exact apart a k b m outside le lt there'

theorem placedCharted (forest : t.Forest) (placed : t.Placed CallReaches lo ids hi) :
    ∃ visited, t.Charted lo ids visited hi := by
  induction placed with
  | nil => exact ⟨[], .nil, by simp, .nil⟩
  | cons found behind inner call outer ihInner ihOuter =>
    obtain ⟨below, down⟩ := ihInner
    obtain ⟨after, along⟩ := ihOuter
    exact ⟨_, chartedCons forest found behind call (placedLe inner) (placedLe outer) down along⟩

end
end Tree

namespace Parse

theorem runPlaced {s s' : ParseState} {ids : List NodeId} (run : Run s ids s')
    (ordered : s.cursor.Ordered) :
    s'.tree.Placed Tree.CallReaches s.cursor.current.start ids s'.cursor.current.start := by
  induction run with
  | rest => exact .nil (Nat.le_refl _)
  | chain before after one two =>
    exact Tree.placedAppend (Tree.placedGrows (one ordered) (runGrows after))
      (two (runOrdered before ordered))
  | forget part _ ih => exact Tree.placedPart (ih ordered) part
  | advance s => exact .nil (nextPlace ordered).1
  | report s fault => exact .nil (runPlace (.report s fault) ordered).1
  | look _ _ => exact .nil (Nat.le_refl _)
  | nest _ _ ih => exact ih ordered
  | within _ _ ih => exact ih ordered
  | @node s s' ids n before _ _ place kids _ moves ih =>
    obtain ⟨m, found, same⟩ := Tree.addNew s'.tree n
    rw [← place]
    refine Tree.placedAdd found same ?_ fun call => ?_
    · rw [place, kids]
      exact Tree.placedGrows (ih ordered) (Tree.growsAdd _ _)
    · rw [same.start, place]
      exact (runPlace before ordered).2 (moves (same.kind ▸ call))
  | flags => exact .nil (Nat.le_refl _)
  | stop => exact .nil (Nat.le_refl _)

end Parse

namespace Program

theorem treePlaced (fileName : String) (text : List Char) :
    let p := parse fileName text
    ∃ hi, p.tree.Placed Tree.CallReaches 0 [p.root] hi := by
  intro p
  have placed := Tree.placedFrom (Parse.runPlaced (statementsRun text) (initialOrdered text))
    (Nat.zero_le _)
  obtain ⟨m, found, same⟩ := Tree.addNew (statements (tokensOf text)).2.tree
    (.holding .sourceFile 0 (Text.byteLength text) (.sourceFile ⟨_, fileName, text⟩))
  refine ⟨_, Tree.placedAdd found same (Tree.placedGrows placed (Tree.growsAdd _ _)) fun call => ?_⟩
  rw [same.kind] at call
  cases call

theorem treeCharted (fileName : String) (text : List Char) :
    let p := parse fileName text
    ∃ visited hi, p.tree.Charted 0 [p.root] visited hi := by
  intro p
  obtain ⟨hi, placed⟩ := treePlaced fileName text
  obtain ⟨visited, charted⟩ := Tree.placedCharted (treeForest fileName text) placed
  exact ⟨visited, hi, charted⟩

theorem treeChildren (fileName : String) (text : List Char) : (parse fileName text).tree.Linked := by
  have forest := treeForest fileName text
  have links := childrenLinks fileName text
  refine ⟨fun i c child => ?_, fun i c child => ?_, fun i => ?_, fun {i c} parent => ?_⟩
  · exact (forest.parent i c).mpr ((links i).mem_iff.mpr child)
  · exact forest.older i c ((links i).mem_iff.mpr child)
  · exact (links i).nodup_iff.mp (forest.once i)
  · exact (links i).mem_iff.mp ((forest.parent i c).mp parent)

end Program
end CallGuard
