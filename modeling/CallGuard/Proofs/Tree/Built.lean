import CallGuard.Tree.Walk
import Mathlib.Data.List.Perm.Subperm

/-! How trees come about. A tree in the making has loose nodes, which have no parent yet; a node
that is added takes its children from among them and is loose itself. What holds of every tree
made in this way is shown once, by induction on the steps. -/
namespace CallGuard

def Node.links (n : Node) : List NodeId := (n.payload?.map Payload.links).getD []

namespace Tree

inductive Built : Tree → List NodeId → Prop where
  | empty : Built .empty []
  | add {t n kept} (agrees : n.Agrees) (root : n.parent? = none)
      (before : Built t (n.links ++ kept)) : Built (t.add n) (t.size :: kept)
  | flags {t loose} (i : NodeId) (marks : NodeFlags) (before : Built t loose) :
      Built (t.addFlags i marks) loose
  | stop {t loose} (i : NodeId) (stop : Nat) (before : Built t loose) : Built (t.setStop i stop) loose
  | forget {t loose fewer} (part : fewer.Subperm loose) (before : Built t loose) : Built t fewer

def linksOf (t : Tree) (i : NodeId) : List NodeId := ((t.get? i).map Node.links).getD []

/- Parent and child know each other, no child stands twice, and children are older. -/
structure Forest (t : Tree) : Prop where
  agrees : ∀ i n, t.get? i = some n → n.Agrees
  parent : ∀ i j, t.parent? j = some i ↔ j ∈ t.linksOf i
  once : ∀ i, (t.linksOf i).Nodup
  older : ∀ i, ∀ j ∈ t.linksOf i, j < i

structure Loose (t : Tree) (ids : List NodeId) : Prop where
  apart : ids.Nodup
  inside : ∀ i ∈ ids, i < t.size
  free : ∀ i ∈ ids, t.parent? i = none

/-! ### One step -/

theorem setParentsSize (nodes : Array Node) (ids : List NodeId) (parent : NodeId) :
    (ids.foldl (setParent · parent) nodes).size = nodes.size := by
  induction ids generalizing nodes with
  | nil => rfl
  | cons i rest ih => simp [ih, setParent]

theorem setParentsAt (nodes : Array Node) (ids : List NodeId) (parent j : NodeId) :
    (ids.foldl (setParent · parent) nodes)[j]? =
      nodes[j]?.map fun n => if j ∈ ids then { n with parent? := some parent } else n := by
  induction ids generalizing nodes with
  | nil => simp
  | cons i rest ih =>
    rw [List.foldl_cons, ih, setParent, Array.getElem?_modify]
    by_cases same : i = j
    · subst same
      cases nodes[i]? <;> simp
    · have other : ¬ j = i := fun h => same h.symm
      simp [same, other]

theorem addSize (t : Tree) (n : Node) : (t.add n).size = t.size + 1 := by
  simp [add, size, setParentsSize]

theorem addAt (t : Tree) (n : Node) (j : NodeId) :
    (t.add n).get? j = (if j = t.size then some n else t.get? j).map fun m =>
      if j ∈ n.links then { m with parent? := some t.size } else m := by
  simp only [add, get?, size, setParentsAt, Array.getElem?_push]
  rfl

theorem addText {t : Tree} {n : Node} (inner : ∀ f, n.payload? ≠ some (.sourceFile f)) :
    (t.add n).text? = t.text? := by
  obtain ⟨nodes, text⟩ := t
  unfold add
  dsimp only
  split
  · rename_i f own
    exact absurd own (inner f)
  · rfl

theorem linksOfAdd (t : Tree) (n : Node) (i : NodeId) :
    (t.add n).linksOf i = if i = t.size then n.links else t.linksOf i := by
  have same (m : Node) : (if i ∈ n.links then { m with parent? := some t.size } else m).links =
      m.links := by split <;> rfl
  unfold linksOf
  rw [addAt]
  by_cases new : i = t.size
  · rw [if_pos new, if_pos new, Option.map_some, Option.map_some, Option.getD_some, same]
  · rw [if_neg new, if_neg new]
    cases t.get? i with
    | none => rfl
    | some m => rw [Option.map_some, Option.map_some, same]; rfl

theorem parentOfAdd (t : Tree) (n : Node) (root : n.parent? = none) {j : NodeId}
    (inside : j ≤ t.size) :
    (t.add n).parent? j = if j ∈ n.links then some t.size else t.parent? j := by
  have outside : t.get? t.size = none := Array.getElem?_eq_none (Nat.le_refl _)
  unfold parent?
  rw [addAt]
  by_cases new : j = t.size
  · subst new
    by_cases own : t.size ∈ n.links <;> simp [own, outside, root]
  · have old : j < t.nodes.size := Nat.lt_of_le_of_ne inside new
    have there : t.get? j = some t.nodes[j] := Array.getElem?_eq_getElem old
    by_cases own : j ∈ n.links <;> simp [new, own, there]

/- Marks and ends of nodes touch no link. -/
theorem modifyKeeps {t : Tree} {i : NodeId} {f : Node → Node}
    (links : ∀ n, (f n).links = n.links) (parent : ∀ n, (f n).parent? = n.parent?) (j : NodeId) :
    ({ t with nodes := t.nodes.modify i f } : Tree).linksOf j = t.linksOf j ∧
      ({ t with nodes := t.nodes.modify i f } : Tree).parent? j = t.parent? j := by
  unfold linksOf parent? get?
  simp only [Array.getElem?_modify]
  by_cases same : i = j
  · subst same
    cases t.nodes[i]? <;> simp [links, parent]
  · simp [same]

/-! ### All steps -/

theorem linksInside {t : Tree} {i j : NodeId} (child : j ∈ t.linksOf i) :
    i < t.size := by
  by_contra outside
  have absent : t.get? i = none := Array.getElem?_eq_none (Nat.not_lt.mp outside)
  simp [linksOf, absent] at child

theorem looseAdd {t : Tree} {n : Node} {kept : List NodeId} (root : n.parent? = none)
    (loose : t.Loose (n.links ++ kept)) : (t.add n).Loose (t.size :: kept) := by
  obtain ⟨apart, inside, free⟩ := loose
  obtain ⟨_, apartKept, disjoint⟩ := List.nodup_append.mp apart
  have keptInside (i : NodeId) (hi : i ∈ kept) : i < t.size :=
    inside i (List.mem_append_right _ hi)
  have notOwn (i : NodeId) (hi : i ∈ t.size :: kept) : i ∉ n.links := by
    intro own
    rcases List.mem_cons.mp hi with rfl | hi
    · exact Nat.lt_irrefl _ (inside _ (List.mem_append_left _ own))
    · exact disjoint i own i hi rfl
  refine ⟨List.nodup_cons.mpr ⟨?_, apartKept⟩, ?_, ?_⟩
  · exact fun hi => Nat.lt_irrefl _ (keptInside _ hi)
  · intro i hi
    rw [addSize]
    rcases List.mem_cons.mp hi with rfl | hi
    · exact Nat.lt_succ_self _
    · exact Nat.lt_succ_of_lt (keptInside i hi)
  · intro i hi
    have own := notOwn i hi
    rcases List.mem_cons.mp hi with rfl | hi
    · rw [parentOfAdd t n root (Nat.le_refl _), if_neg own]
      simp [parent?, get?, size]
    · rw [parentOfAdd t n root (Nat.le_of_lt (keptInside i hi)), if_neg own]
      exact free i (List.mem_append_right _ hi)

theorem forestAdd {t : Tree} {n : Node} {kept : List NodeId} (agrees : n.Agrees)
    (root : n.parent? = none) (forest : t.Forest) (loose : t.Loose (n.links ++ kept)) :
    (t.add n).Forest := by
  have inside (j : NodeId) (own : j ∈ n.links) : j < t.size :=
    loose.inside j (List.mem_append_left _ own)
  refine ⟨?_, ?_, ?_, ?_⟩
  · intro i m found
    rw [addAt] at found
    obtain ⟨before, there, rfl⟩ := Option.map_eq_some_iff.mp found
    have good : before.Agrees := by
      by_cases new : i = t.size
      · rw [if_pos new] at there
        cases there
        exact agrees
      · rw [if_neg new] at there
        exact forest.agrees i before there
    by_cases own : i ∈ n.links
    · rw [if_pos own]; exact good
    · rw [if_neg own]; exact good
  · intro i j
    rw [linksOfAdd]
    by_cases old : j ≤ t.size
    · rw [parentOfAdd t n root old]
      by_cases own : j ∈ n.links
      · rw [if_pos own, Option.some_inj]
        by_cases new : i = t.size
        · simp [new, own]
        · rw [if_neg new]
          constructor
          · exact fun same => absurd same.symm new
          · intro child
            have free := loose.free j (List.mem_append_left _ own)
            rw [(forest.parent i j).mpr child] at free
            cases free
      · rw [if_neg own]
        by_cases new : i = t.size
        · rw [if_pos new]
          constructor
          · intro parent
            have child := (forest.parent i j).mp parent
            exact absurd (new ▸ linksInside child) (Nat.lt_irrefl _)
          · exact fun own' => absurd own' own
        · rw [if_neg new]
          exact forest.parent i j
    · have outside : ¬ j ∈ n.links := fun own => old (Nat.le_of_lt (inside j own))
      have absent : (t.add n).parent? j = none := by
        have : (t.add n).get? j = none := by
          have big : (t.add n).size ≤ j := by rw [addSize]; exact Nat.lt_of_not_le old
          exact Array.getElem?_eq_none big
        simp [parent?, this]
      rw [absent]
      constructor
      · intro h; cases h
      · intro child
        split at child
        · exact absurd child outside
        · have younger := Nat.lt_trans (forest.older i j child) (linksInside child)
          exact absurd (Nat.le_of_lt younger) old
  · intro i
    rw [linksOfAdd]
    split
    · exact (List.nodup_append.mp loose.apart).1
    · exact forest.once i
  · intro i j child
    rw [linksOfAdd] at child
    split at child
    · rename_i new
      rw [new]
      exact inside j child
    · exact forest.older i j child

theorem forestModify {t : Tree} {i : NodeId} {f : Node → Node}
    (kind : ∀ n, (f n).kind = n.kind) (payload : ∀ n, (f n).payload? = n.payload?)
    (parent : ∀ n, (f n).parent? = n.parent?) (forest : t.Forest) :
    ({ t with nodes := t.nodes.modify i f } : Tree).Forest := by
  have links (n : Node) : (f n).links = n.links := by simp [Node.links, payload]
  have keeps := modifyKeeps (t := t) (i := i) links parent
  refine ⟨?_, ?_, ?_, ?_⟩
  · intro j n found
    simp only [get?, Array.getElem?_modify] at found
    by_cases same : i = j
    · rw [if_pos same] at found
      obtain ⟨before, there, rfl⟩ := Option.map_eq_some_iff.mp found
      have good := forest.agrees j before there
      simpa only [Node.Agrees, kind, payload] using good
    · rw [if_neg same] at found
      exact forest.agrees j n found
  · intro p j
    rw [(keeps j).2, (keeps p).1]
    exact forest.parent p j
  · intro p
    rw [(keeps p).1]
    exact forest.once p
  · intro p j child
    rw [(keeps p).1] at child
    exact forest.older p j child

theorem looseModify {t : Tree} {i : NodeId} {f : Node → Node} {ids : List NodeId}
    (links : ∀ n, (f n).links = n.links) (parent : ∀ n, (f n).parent? = n.parent?)
    (loose : t.Loose ids) : ({ t with nodes := t.nodes.modify i f } : Tree).Loose ids := by
  refine ⟨loose.apart, ?_, ?_⟩
  · intro j hj
    simpa [size] using loose.inside j hj
  · intro j hj
    rw [(modifyKeeps links parent j).2]
    exact loose.free j hj

theorem builtForest {t : Tree} {ids : List NodeId} (built : Built t ids) :
    t.Forest ∧ t.Loose ids := by
  induction built with
  | empty =>
    have nothing (i : NodeId) : empty.get? i = none := by simp [get?, empty]
    refine ⟨⟨?_, ?_, ?_, ?_⟩, List.nodup_nil, by simp, by simp⟩
    · intro i n found; rw [nothing] at found; cases found
    · intro i j; simp [parent?, linksOf, nothing]
    · intro i; simp [linksOf, nothing]
    · intro i j child; simp [linksOf, nothing] at child
  | add agrees root _ ih => exact ⟨forestAdd agrees root ih.1 ih.2, looseAdd root ih.2⟩
  | flags i marks _ ih =>
    exact ⟨forestModify (fun _ => rfl) (fun _ => rfl) (fun _ => rfl) ih.1,
      looseModify (fun _ => rfl) (fun _ => rfl) ih.2⟩
  | stop i stop _ ih =>
    exact ⟨forestModify (fun _ => rfl) (fun _ => rfl) (fun _ => rfl) ih.1,
      looseModify (fun _ => rfl) (fun _ => rfl) ih.2⟩
  | forget part _ ih =>
    obtain ⟨same, perm, sub⟩ := part
    have apart := perm.nodup_iff.mp (ih.2.apart.sublist sub)
    have within (i : NodeId) (hi : i ∈ _) := sub.subset (perm.mem_iff.mpr hi)
    exact ⟨ih.1, apart, fun i hi => ih.2.inside i (within i hi),
      fun i hi => ih.2.free i (within i hi)⟩

/-! ### What a forest says of payloads -/

theorem heldInside {t : Tree} {i : NodeId} {p : Payload} (held : t.payloadAt? i = some p) :
    i < t.size := by
  by_contra outside
  have absent : t.get? i = none := Array.getElem?_eq_none (Nat.not_lt.mp outside)
  simp [payloadAt?, absent] at held

theorem heldLinks {t : Tree} {i : NodeId} {p : Payload} (forest : t.Forest)
    (holds : t.payloadAt? i = some p) : t.linksOf i = p.links := by
  cases found : t.get? i with
  | none => simp [payloadAt?, found] at holds
  | some n =>
    rw [payloadAgreed found (forest.agrees i n found)] at holds
    simp [linksOf, found, Node.links, holds]

theorem callKind {k : NodeKind} (form : k.form? = some .call) : k.isCall = true := by
  unfold NodeKind.form? at form
  split at form <;> cases form <;> rfl

theorem heldKind {t : Tree} {i : NodeId} {p : Payload} (forest : t.Forest)
    (holds : t.payloadAt? i = some p) : ∃ k, t.kind? i = some k ∧ k.form? = some p.form := by
  cases found : t.get? i with
  | none => simp [payloadAt?, found] at holds
  | some n =>
    rw [payloadAgreed found (forest.agrees i n found)] at holds
    exact ⟨n.kind, by simp [kind?, found], forest.agrees i n found p holds⟩

/- Only functions hold what functions hold. -/
theorem heldPlain {t : Tree} {i : NodeId} {p : Payload} (forest : t.Forest)
    (holds : t.payloadAt? i = some p) (plain : p.form ≠ .function) :
    t.kindIs NodeKind.isFunctionLike i = false := by
  obtain ⟨k, found, form⟩ := heldKind forest holds
  rw [kindIs, found]
  cases isFunction : k.isFunctionLike with
  | false => exact isFunction
  | true =>
    refine absurd ?_ plain
    cases k <;> cases isFunction <;> exact (Option.some.inj form).symm

theorem heldParent {t : Tree} {i j : NodeId} {p : Payload} (forest : t.Forest)
    (holds : t.payloadAt? i = some p) (child : some j ∈ p.slots) : t.parent? j = some i := by
  rw [forest.parent, heldLinks forest holds]
  exact List.mem_filterMap.mpr ⟨some j, child, rfl⟩

theorem heldOlder {t : Tree} {i j : NodeId} {p : Payload} (forest : t.Forest)
    (holds : t.payloadAt? i = some p) (child : some j ∈ p.slots) : j < i :=
  forest.older i j ((forest.parent i j).mp (heldParent forest holds child))

end Tree

end CallGuard
