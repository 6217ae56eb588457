import CallGuard.Proofs.Tree.Built

/-! A tree that grows keeps its nodes. Marks, ends and parents may still change; the kind of a node,
its place and what it holds never do. Where no end is moved either, the tree keeps its spans. -/
namespace CallGuard

namespace Node

/- The children in the order of the text. -/
def kids (n : Node) : List NodeId := (n.payload?.map (Payload.childrenAs n.kind)).getD []

structure Same (n m : Node) : Prop where
  kind : m.kind = n.kind
  start : m.start = n.start
  payload : m.payload? = n.payload?

theorem Same.refl (n : Node) : n.Same n := ⟨rfl, rfl, rfl⟩

theorem Same.trans {n m k : Node} (one : n.Same m) (two : m.Same k) : n.Same k :=
  ⟨two.kind.trans one.kind, two.start.trans one.start, two.payload.trans one.payload⟩

theorem Same.kids {n m : Node} (same : n.Same m) : m.kids = n.kids := by
  rw [Node.kids, Node.kids, same.kind, same.payload]

theorem Same.links {n m : Node} (same : n.Same m) : m.links = n.links := by
  rw [Node.links, Node.links, same.payload]

structure Kept (n m : Node) : Prop extends n.Same m where
  stop : m.stop = n.stop

end Node

namespace Tree
variable {t t' t'' : Tree} {i : NodeId} {n m : Node}

def Grows (t t' : Tree) : Prop := ∀ i n, t.get? i = some n → ∃ m, t'.get? i = some m ∧ n.Same m

theorem Grows.refl (t : Tree) : t.Grows t := fun _ n found => ⟨n, found, .refl n⟩

theorem Grows.trans (one : t.Grows t') (two : t'.Grows t'') : t.Grows t'' := by
  intro i n found
  obtain ⟨m, found', same⟩ := one i n found
  obtain ⟨k, found'', same'⟩ := two i m found'
  exact ⟨k, found'', same.trans same'⟩

/- Each node of the larger tree is the one that was added or was there before. -/
theorem addOrigin (found : (t.add n).get? i = some m) :
    i = t.size ∧ n.Same m ∨ ∃ k, t.get? i = some k ∧ k.Same m := by
  rw [addAt] at found
  obtain ⟨k, before, rfl⟩ := Option.map_eq_some_iff.mp found
  have same : k.Same (if i ∈ n.links then { k with parent? := some t.size } else k) := by
    split <;> exact ⟨rfl, rfl, rfl⟩
  by_cases new : i = t.size
  · rw [if_pos new] at before
    exact .inl ⟨new, Option.some.inj before ▸ same⟩
  · rw [if_neg new] at before
    exact .inr ⟨k, before, same⟩

theorem getInside (found : t.get? i = some n) : i < t.size := by
  by_contra outside
  have absent : t.get? i = none := Array.getElem?_eq_none (Nat.not_lt.mp outside)
  rw [absent] at found
  cases found

/- A node that is added is there at the end of the row. -/
theorem addKept (t : Tree) (n : Node) : ∃ m, (t.add n).get? t.size = some m ∧ n.Kept m := by
  refine ⟨if t.size ∈ n.links then { n with parent? := some t.size } else n, ?_, ?_⟩
  · rw [addAt, if_pos rfl]
    rfl
  · split <;> exact ⟨⟨rfl, rfl, rfl⟩, rfl⟩

theorem addNew (t : Tree) (n : Node) : ∃ m, (t.add n).get? t.size = some m ∧ n.Same m := by
  obtain ⟨m, found, kept⟩ := addKept t n
  exact ⟨m, found, kept.toSame⟩

structure Keeps (t t' : Tree) : Prop where
  size : t.size ≤ t'.size
  kept : ∀ i n, t.get? i = some n → ∃ m, t'.get? i = some m ∧ n.Kept m

theorem Keeps.refl (t : Tree) : t.Keeps t := ⟨Nat.le_refl _, fun _ n found => ⟨n, found, .refl n, rfl⟩⟩

theorem Keeps.trans (one : t.Keeps t') (two : t'.Keeps t'') : t.Keeps t'' := by
  refine ⟨Nat.le_trans one.size two.size, fun i n found => ?_⟩
  obtain ⟨m, found', kept⟩ := one.kept i n found
  obtain ⟨k, found'', kept'⟩ := two.kept i m found'
  exact ⟨k, found'', kept.toSame.trans kept'.toSame, kept'.stop.trans kept.stop⟩

theorem Keeps.grows (keeps : t.Keeps t') : t.Grows t' := by
  intro i n found
  obtain ⟨m, found', kept⟩ := keeps.kept i n found
  exact ⟨m, found', kept.toSame⟩

theorem keepsAdd (t : Tree) (n : Node) : t.Keeps (t.add n) := by
  refine ⟨addSize t n ▸ Nat.le_succ _, fun i k before => ?_⟩
  have old : i ≠ t.size := Nat.ne_of_lt (getInside before)
  refine ⟨if i ∈ n.links then { k with parent? := some t.size } else k, ?_, ?_⟩
  · rw [addAt, if_neg old, before]
    rfl
  · split <;> exact ⟨⟨rfl, rfl, rfl⟩, rfl⟩

theorem growsAdd (t : Tree) (n : Node) : t.Grows (t.add n) := (keepsAdd t n).grows

theorem growsModify {f : Node → Node} (same : ∀ n : Node, n.Same (f n)) (i : NodeId) :
    t.Grows { t with nodes := t.nodes.modify i f } := by
  intro j n found
  change t.nodes[j]? = some n at found
  by_cases here : i = j
  · exact ⟨f n, by simp [get?, Array.getElem?_modify, here, found], same n⟩
  · exact ⟨n, by simp [get?, Array.getElem?_modify, here, found], .refl n⟩

theorem modifyOrigin {f : Node → Node} (same : ∀ n : Node, n.Same (f n)) {j : NodeId}
    (found : ({ t with nodes := t.nodes.modify j f } : Tree).get? i = some m) :
    ∃ k, t.get? i = some k ∧ k.Same m := by
  simp only [get?, Array.getElem?_modify] at found
  split at found
  · obtain ⟨k, before, rfl⟩ := Option.map_eq_some_iff.mp found
    exact ⟨k, before, same k⟩
  · exact ⟨m, found, .refl m⟩

theorem growsStop (t : Tree) (i : NodeId) (stop : Nat) : t.Grows (t.setStop i stop) :=
  growsModify (f := fun n => { n with stop := stop }) (fun _ => ⟨rfl, rfl, rfl⟩) i

theorem keepsFlags (t : Tree) (i : NodeId) (marks : NodeFlags) : t.Keeps (t.addFlags i marks) := by
  refine ⟨Nat.le_of_eq (by simp [size, addFlags]), fun j n found => ?_⟩
  change t.nodes[j]? = some n at found
  by_cases here : i = j
  · exact ⟨{ n with flags := n.flags ||| marks },
      by simp [addFlags, get?, Array.getElem?_modify, here, found], ⟨rfl, rfl, rfl⟩, rfl⟩
  · exact ⟨n, by simp [addFlags, get?, Array.getElem?_modify, here, found], .refl n, rfl⟩

theorem growsFlags (t : Tree) (i : NodeId) (marks : NodeFlags) : t.Grows (t.addFlags i marks) :=
  (keepsFlags t i marks).grows

/- One end is moved, and no other. -/
theorem stopOther {j : NodeId} (other : i ≠ j) (stop : Nat) : (t.setStop i stop).get? j = t.get? j := by
  simp [setStop, get?, Array.getElem?_modify, other]

theorem stopOwn (found : t.get? i = some n) (stop : Nat) :
    (t.setStop i stop).get? i = some { n with stop := stop } := by
  change t.nodes[i]? = some n at found
  simp [setStop, get?, Array.getElem?_modify, found]

theorem flagsOrigin {j : NodeId} {marks : NodeFlags}
    (found : (t.addFlags j marks).get? i = some m) : ∃ k, t.get? i = some k ∧ k.Same m :=
  modifyOrigin (f := fun n => { n with flags := n.flags ||| marks }) (fun _ => ⟨rfl, rfl, rfl⟩) found

theorem stopOrigin {j : NodeId} {stop : Nat}
    (found : (t.setStop j stop).get? i = some m) : ∃ k, t.get? i = some k ∧ k.Same m :=
  modifyOrigin (f := fun n => { n with stop := stop }) (fun _ => ⟨rfl, rfl, rfl⟩) found

end Tree
end CallGuard
