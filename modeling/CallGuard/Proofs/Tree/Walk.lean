import CallGuard.Proofs.Tree.Grows
import CallGuard.Tree.Walk
import Mathlib.Data.Set.Card

/-! Walking down a tree. The nodes that a walk visits are those under its root, each of them once,
and the walk with a stack of its own is that walk as long as its bound is not reached. -/
namespace CallGuard.Tree

variable {t : Tree}

/- A node itself or one below it. -/
inductive Under (t : Tree) : NodeId → NodeId → Prop where
  | self (i) : Under t i i
  | down {i c j} (child : c ∈ t.children i) (under : Under t c j) : Under t i j

/- A row of nodes with everything under them, parents before children. -/
inductive Walk (t : Tree) : List NodeId → List NodeId → Prop where
  | nil : Walk t [] []
  | cons {i rest inner outer} (down : Walk t (t.children i) inner) (along : Walk t rest outer) :
      Walk t (i :: rest) (i :: (inner ++ outer))

section
variable {row visited : List NodeId} {i j : NodeId}

theorem walkMem (walk : t.Walk row visited) : j ∈ visited ↔ ∃ i ∈ row, t.Under i j := by
  induction walk with
  | nil => simp
  | @cons i rest inner outer _ _ down along =>
    rw [List.mem_cons, List.mem_append, down, along]
    constructor
    · rintro (rfl | ⟨c, child, under⟩ | ⟨k, other, under⟩)
      · exact ⟨j, List.mem_cons_self, .self j⟩
      · exact ⟨i, List.mem_cons_self, .down child under⟩
      · exact ⟨k, List.mem_cons_of_mem _ other, under⟩
    · rintro ⟨k, member, under⟩
      rcases List.mem_cons.mp member with rfl | other
      · cases under with
        | self => exact .inl rfl
        | down child under => exact .inr (.inl ⟨_, child, under⟩)
      · exact .inr (.inr ⟨k, other, under⟩)

/- What stands under a node of the row is walked in one part of the walk. -/
theorem walkBelow (walk : t.Walk row visited) (member : i ∈ row) (under : t.Under i j) :
    ∃ part, t.Walk [j] part ∧ part.Sublist visited := by
  induction walk generalizing i with
  | nil => cases member
  | @cons k rest inner outer down _ ihDown ihAlong =>
    rcases List.mem_cons.mp member with rfl | other
    · cases under with
      | self =>
        refine ⟨_, .cons down .nil, List.Sublist.cons_cons _ ?_⟩
        exact (List.Sublist.refl inner).append (List.nil_sublist outer)
      | down child under =>
        obtain ⟨part, walk, sublist⟩ := ihDown child under
        exact ⟨part, walk, (sublist.trans (List.sublist_append_left inner outer)).cons _⟩
    · obtain ⟨part, walk, sublist⟩ := ihAlong other under
      exact ⟨part, walk, (sublist.trans (List.sublist_append_right inner outer)).cons k⟩

end

/-! ### Keeping out of some nodes -/

variable {enters : NodeId → Bool}

/- A walk that does not go under nodes that are not entered. -/
inductive Tour (t : Tree) (enters : NodeId → Bool) : List NodeId → List NodeId → Prop where
  | nil : Tour t enters [] []
  | cons {i rest inner outer} (down : Tour t enters (if enters i then t.children i else []) inner)
      (along : Tour t enters rest outer) : Tour t enters (i :: rest) (i :: (inner ++ outer))

/- All nodes on the way down are entered, the last one excepted. -/
inductive Reaches (t : Tree) (enters : NodeId → Bool) : NodeId → NodeId → Prop where
  | self (i : NodeId) : Reaches t enters i i
  | down {i c j : NodeId} (entered : enters i = true) (child : c ∈ t.children i)
      (reaches : Reaches t enters c j) : Reaches t enters i j

section
variable {row more visited visitedMore : List NodeId} {i j : NodeId}

theorem tourAppend (tour : t.Tour enters row visited) (next : t.Tour enters more visitedMore) :
    t.Tour enters (row ++ more) (visited ++ visitedMore) := by
  induction tour with
  | nil => exact next
  | cons down _ _ along =>
    rw [List.cons_append, List.cons_append, List.append_assoc]
    exact .cons down along

/- The stack holds the row that is still to be walked. -/
theorem visitTake (tour : t.Tour enters row visited) (limit : Nat) (before : List NodeId) :
    t.visit enters limit row before = (visited.take limit).reverse ++ before := by
  induction limit generalizing row visited before with
  | zero => cases tour <;> rfl
  | succ limit ih =>
    cases tour with
    | nil => rfl
    | @cons i rest inner outer down along =>
      have next : t.Tour enters (if enters i = true then t.children i ++ rest else rest)
          (inner ++ outer) := by
        cases entered : enters i with
        | true =>
          rw [if_pos entered] at down
          exact tourAppend down along
        | false =>
          rw [if_neg (by simp [entered])] at down
          cases down
          exact along
      rw [visit, ih next, List.take_succ_cons, List.reverse_cons, List.append_assoc]
      rfl

/- A walk that reaches its bound stops on the way. -/
theorem preorderTake {root : NodeId} (tour : t.Tour enters [root] visited) :
    t.preorder enters root = visited.take maxVisits := by
  rw [preorder, visitTake tour, List.append_nil, List.reverse_reverse]

theorem preorderTour {root : NodeId} (tour : t.Tour enters [root] visited)
    (enough : visited.length ≤ maxVisits) : t.preorder enters root = visited := by
  rw [preorderTake tour, List.take_of_length_le enough]

theorem walkTour (walk : t.Walk row visited) : t.Tour (fun _ => true) row visited := by
  induction walk with
  | nil => exact .nil
  | cons _ _ down along => exact .cons down along

theorem preorderWalk {root : NodeId} (walk : t.Walk [root] visited)
    (enough : visited.length ≤ maxVisits) : t.preorder (fun _ => true) root = visited :=
  preorderTour (walkTour walk) enough

/- A walk that keeps out of some nodes visits a part of the row in its order. -/
theorem tourPart (walk : t.Walk row visited) (enters : NodeId → Bool) :
    ∃ part, t.Tour enters row part ∧ part.Sublist visited := by
  induction walk with
  | nil => exact ⟨[], .nil, .refl _⟩
  | @cons i rest inner outer _ _ down along =>
    obtain ⟨outer', along, outerPart⟩ := along
    cases entered : enters i with
    | true =>
      obtain ⟨inner', down, innerPart⟩ := down
      refine ⟨i :: (inner' ++ outer'), .cons ?_ along, (innerPart.append outerPart).cons_cons i⟩
      rw [if_pos entered]
      exact down
    | false =>
      refine ⟨i :: ([] ++ outer'), .cons ?_ along, ((List.nil_sublist _).append outerPart).cons_cons i⟩
      rw [if_neg (by simp [entered])]
      exact .nil

theorem tourMem (tour : t.Tour enters row visited) :
    j ∈ visited ↔ ∃ i ∈ row, t.Reaches enters i j := by
  induction tour with
  | nil => simp
  | @cons i rest inner outer _ _ down along =>
    rw [List.mem_cons, List.mem_append, down, along]
    constructor
    · rintro (rfl | ⟨c, child, reaches⟩ | ⟨k, other, reaches⟩)
      · exact ⟨j, List.mem_cons_self, .self j⟩
      · split at child
        · exact ⟨i, List.mem_cons_self, .down ‹_› child reaches⟩
        · cases child
      · exact ⟨k, List.mem_cons_of_mem _ other, reaches⟩
    · rintro ⟨k, member, reaches⟩
      rcases List.mem_cons.mp member with rfl | other
      · cases reaches with
        | self => exact .inl rfl
        | down entered child reaches =>
          rw [if_pos entered]
          exact .inr (.inl ⟨_, child, reaches⟩)
      · exact .inr (.inr ⟨k, other, reaches⟩)

end

/-! ### In a forest -/

section
variable {a b c i j : NodeId}

/- Children are listed by their parent, and by it alone. -/
structure Linked (t : Tree) : Prop where
  parent : ∀ i, ∀ c ∈ t.children i, t.parent? c = some i
  older : ∀ i, ∀ c ∈ t.children i, c < i
  once : ∀ i, (t.children i).Nodup
  child : ∀ {i c}, t.parent? c = some i → c ∈ t.children i

theorem underLe (linked : t.Linked) (under : t.Under i j) : j ≤ i := by
  induction under with
  | self => exact Nat.le_refl _
  | down child _ ih => exact Nat.le_trans ih (Nat.le_of_lt (linked.older _ _ child))

theorem underTrans (one : t.Under a b) (two : t.Under b c) : t.Under a c := by
  induction one with
  | self => exact two
  | down child _ ih => exact .down child (ih two)

/- Nothing stands above a node without a parent. -/
theorem underTop (linked : t.Linked) (under : t.Under a b) (top : t.parent? b = none) : a = b := by
  induction under with
  | self => rfl
  | down child _ ih =>
    cases ih top
    rw [linked.parent _ _ child] at top
    cases top

theorem underParent (linked : t.Linked) {p : NodeId} (under : t.Under b c)
    (parent : t.parent? c = some p) : b = c ∨ t.Under b p := by
  induction under with
  | self => exact .inl rfl
  | @down b b' c child _ ih =>
    rcases ih parent with rfl | higher
    · cases (linked.parent b b' child).symm.trans parent
      exact .inr (.self _)
    · exact .inr (.down child higher)

/- Of two nodes above one node, one is above the other. -/
theorem underLinear (linked : t.Linked) (one : t.Under a c) (two : t.Under b c) :
    t.Under a b ∨ t.Under b a := by
  induction one with
  | self => exact .inr two
  | @down a a' c child _ ih =>
    rcases ih two with below | above
    · exact .inl (.down child below)
    · rcases underParent linked above (linked.parent a a' child) with rfl | higher
      · exact .inl (.down child (.self b))
      · exact .inr higher

theorem siblingAbove (linked : t.Linked) (one : a ∈ t.children i) (two : b ∈ t.children i)
    (above : t.Under a b) : a = b := by
  rcases underParent linked above (linked.parent i b two) with same | higher
  · exact same
  · exact absurd (underLe linked higher) (Nat.not_le.mpr (linked.older i a one))

theorem siblingsApart (linked : t.Linked) (one : a ∈ t.children i) (two : b ∈ t.children i)
    (underOne : t.Under a j) (underTwo : t.Under b j) : a = b := by
  rcases underLinear linked underOne underTwo with above | above
  · exact siblingAbove linked one two above
  · exact (siblingAbove linked two one above).symm

theorem walkOnce (linked : t.Linked) {row visited : List NodeId} (walk : t.Walk row visited)
    (apart : row.Pairwise fun a b => ∀ j, t.Under a j → ¬ t.Under b j) : visited.Nodup := by
  induction walk with
  | nil => exact List.nodup_nil
  | @cons i rest inner outer down along downOnce alongOnce =>
    obtain ⟨first, others⟩ := List.pairwise_cons.mp apart
    have innerUnder (j : NodeId) (member : j ∈ inner) : ∃ c ∈ t.children i, t.Under c j :=
      (walkMem down).mp member
    have outerFree (j : NodeId) (under : t.Under i j) : j ∉ outer := by
      intro member
      obtain ⟨k, other, also⟩ := (walkMem along).mp member
      exact first k other j under also
    have children : (t.children i).Pairwise fun a b => ∀ j, t.Under a j → ¬ t.Under b j := by
      refine (linked.once i).imp_of_mem fun {a b} one two differ j underOne underTwo => ?_
      exact differ (siblingsApart linked one two underOne underTwo)
    refine List.nodup_cons.mpr ⟨fun again => ?_, List.nodup_append.mpr
      ⟨downOnce children, alongOnce others, fun j inside k outside => ?_⟩⟩
    · rcases List.mem_append.mp again with inside | outside
      · obtain ⟨c, child, under⟩ := innerUnder i inside
        exact absurd (underLe linked under) (Nat.not_le.mpr (linked.older i c child))
      · exact outerFree i (.self i) outside
    · rintro rfl
      obtain ⟨c, child, under⟩ := innerUnder j inside
      exact outerFree j (.down child under) outside

/- A walk is as long as there are nodes under its root. -/
theorem walkLength (linked : t.Linked) {root : NodeId} {visited : List NodeId}
    (walk : t.Walk [root] visited) : visited.length = {i | t.Under root i}.ncard := by
  have once := walkOnce linked walk (List.pairwise_singleton _ _)
  have members : {i | t.Under root i} = ↑visited.toFinset := by
    ext i
    simp [walkMem walk]
  rw [members, Set.ncard_coe_finset, List.toFinset_card_of_nodup once]

theorem underFew (linked : t.Linked) (root : NodeId) : {i | t.Under root i}.ncard ≤ root + 1 := by
  have inside : {i | t.Under root i} ⊆ ↑(Finset.range (root + 1)) := fun i under =>
    Finset.mem_coe.mpr (Finset.mem_range.mpr (Nat.lt_succ_of_le (underLe linked under)))
  have few := Set.ncard_le_ncard inside (Finset.finite_toSet _)
  rwa [Set.ncard_coe_finset, Finset.card_range] at few

/- Everything under a node can be walked, since children are older than their parents. -/
theorem walkExists (linked : t.Linked) (root : NodeId) : ∃ visited, t.Walk [root] visited := by
  have below (n : Nat) : ∀ row : List NodeId, (∀ i ∈ row, i < n) → ∃ visited, t.Walk row visited := by
    induction n with
    | zero =>
      intro row none
      cases row with
      | nil => exact ⟨[], .nil⟩
      | cons i _ => exact absurd (none i List.mem_cons_self) (Nat.not_lt_zero i)
    | succ n ih =>
      intro row few
      induction row with
      | nil => exact ⟨[], .nil⟩
      | cons i rest along =>
        obtain ⟨outer, along⟩ := along fun j member => few j (List.mem_cons_of_mem i member)
        obtain ⟨inner, down⟩ := ih (t.children i) fun c child =>
          Nat.lt_of_lt_of_le (linked.older i c child) (Nat.le_of_lt_succ (few i List.mem_cons_self))
        exact ⟨_, .cons down along⟩
  refine below (root + 1) [root] fun i member => ?_
  rw [List.mem_singleton.mp member]
  exact Nat.lt_succ_self root

theorem reachesUnder (linked : t.Linked) : t.Reaches enters i j ↔
    t.Under i j ∧ ∀ k, t.Under i k → t.Under k j → k ≠ j → enters k = true := by
  constructor
  · intro reaches
    induction reaches with
    | self i =>
      refine ⟨.self i, fun k above below other => absurd ?_ other⟩
      exact Nat.le_antisymm (underLe linked above) (underLe linked below)
    | @down i c j entered child _ ih =>
      refine ⟨.down child ih.1, fun k above below other => ?_⟩
      cases above with
      | self => exact entered
      | @down _ c' _ child' above' =>
        have same := siblingsApart linked child child' ih.1 (underTrans above' below)
        exact ih.2 k (same ▸ above') below other
  · rintro ⟨under, open'⟩
    induction under with
    | self => exact .self _
    | @down i c j child under ih =>
      have apart : i ≠ j := Nat.ne_of_gt (Nat.lt_of_le_of_lt (underLe linked under)
        (linked.older i c child))
      exact .down (open' i (.self i) (.down child under) apart) child
        (ih fun k above => open' k (.down child above))

end
end CallGuard.Tree
