import CallGuard.Proofs.Tree.Depth
import CallGuard.Proofs.Tree.Walk

/-! The innermost node of a kind around another node. -/
namespace CallGuard.Tree

variable {t : Tree} {i f : NodeId}

/- The nearest of the nodes around `i` of which `p` holds. -/
structure Innermost (t : Tree) (p : NodeId → Bool) (i f : NodeId) : Prop where
  holds : p f = true
  around : t.Under f i
  apart : f ≠ i
  nearest : ∀ k, p k = true → t.Under k i → k ≠ i → t.Under k f

section
variable {p : NodeId → Bool} {parent : NodeId}

theorem parentAbove (linked : t.Linked) (above : t.parent? i = some parent) :
    t.Under parent i ∧ parent ≠ i :=
  ⟨.down (linked.child above) (.self i), Nat.ne_of_gt (linked.older _ _ (linked.child above))⟩

theorem innermostHere (linked : t.Linked) (above : t.parent? i = some parent)
    (holds : p parent = true) : t.Innermost p i f ↔ parent = f := by
  obtain ⟨under, apart⟩ := parentAbove linked above
  constructor
  · intro inner
    have outside := inner.nearest parent holds under apart
    have inside := (underParent linked inner.around above).resolve_left inner.apart
    exact Nat.le_antisymm (underLe linked inside) (underLe linked outside)
  · rintro rfl
    exact ⟨holds, under, apart, fun k _ around other =>
      (underParent linked around above).resolve_left other⟩

theorem innermostFurther (linked : t.Linked) (above : t.parent? i = some parent)
    (fails : p parent = false) : t.Innermost p i f ↔ t.Innermost p parent f := by
  obtain ⟨under, apart⟩ := parentAbove linked above
  have other {k : NodeId} (holds : p k = true) : k ≠ parent := by
    rintro rfl
    rw [holds] at fails
    cases fails
  have differ {k : NodeId} (around : t.Under k parent) : k ≠ i := by
    rintro rfl
    exact apart (Nat.le_antisymm (underLe linked under) (underLe linked around)).symm
  constructor
  · rintro ⟨holds, around, apart, nearest⟩
    exact ⟨holds, (underParent linked around above).resolve_left apart, other holds,
      fun k good below _ => nearest k good (underTrans below under) (differ below)⟩
  · rintro ⟨holds, around, _, nearest⟩
    exact ⟨holds, underTrans around under, differ around, fun k good below apart =>
      nearest k good ((underParent linked below above).resolve_left apart) (other good)⟩

theorem innermostFound (linked : t.Linked) {n limit : Nat} (depth : t.Depth i n)
    (enough : n ≤ limit) :
    (t.chain limit (t.parent? i)).find? p = some f ↔ t.Innermost p i f := by
  induction depth generalizing limit with
  | @top i root =>
    rw [root]
    have empty : t.chain limit none = [] := by cases limit <;> rfl
    rw [empty]
    exact ⟨nofun, fun inner => absurd (underTop linked inner.around root) inner.apart⟩
  | @under i parent n above _ ih =>
    obtain ⟨limit, rfl⟩ := Nat.exists_eq_add_of_le' (Nat.lt_of_lt_of_le (Nat.succ_pos n) enough)
    rw [above]
    change (parent :: t.chain limit (t.parent? parent)).find? p = some f ↔ _
    cases holds : p parent with
    | true =>
      rw [List.find?_cons_of_pos holds, Option.some_inj]
      exact (innermostHere linked above holds).symm
    | false =>
      rw [List.find?_cons_of_neg (by simp [holds])]
      exact (ih (Nat.le_of_succ_le_succ enough)).trans (innermostFurther linked above holds).symm

/- Without a limit to the way up, the search for a kind of node finds the innermost one. -/
theorem ancestorFound (forest : t.Forest) (linked : t.Linked) (shallow : t.Shallow) :
    (t.ancestors i).find? p = some f ↔ t.Innermost p i f := by
  obtain ⟨n, depth, _⟩ := depthExists forest i
  exact innermostFound linked depth (shallow i n depth)

end
end CallGuard.Tree
