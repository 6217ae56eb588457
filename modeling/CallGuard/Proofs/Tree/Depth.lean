import CallGuard.Proofs.Tree.Built
import CallGuard.Tree.Walk

/-! How far a node lies below the root of its tree. -/
namespace CallGuard.Tree

inductive Depth (t : Tree) : NodeId → Nat → Prop where
  | top {i} (root : t.parent? i = none) : Depth t i 0
  | under {i p n} (parent : t.parent? i = some p) (above : Depth t p n) : Depth t i (n + 1)

/- No walk towards the root is cut short. -/
def Shallow (t : Tree) : Prop := ∀ i n, t.Depth i n → n ≤ maxAscent

variable {t : Tree} {i : NodeId} {n : Nat}

theorem depthExists (forest : t.Forest) (i : NodeId) : ∃ n, t.Depth i n ∧ n ≤ t.size - i := by
  cases parent : t.parent? i with
  | none => exact ⟨0, .top parent, Nat.zero_le _⟩
  | some p =>
    have child := (forest.parent p i).mp parent
    have nearer : t.size - p < t.size - i :=
      Nat.sub_lt_sub_left (Nat.lt_trans (forest.older p i child) (linksInside child))
        (forest.older p i child)
    obtain ⟨n, above, bound⟩ := depthExists forest p
    exact ⟨n + 1, .under parent above, Nat.lt_of_le_of_lt bound nearer⟩
termination_by t.size - i

theorem depthSame {m : Nat} (one : t.Depth i n) (two : t.Depth i m) : n = m := by
  induction one generalizing m with
  | top root =>
    cases two with
    | top _ => rfl
    | under parent _ => rw [root] at parent; cases parent
  | under parent _ ih =>
    cases two with
    | top root => rw [root] at parent; cases parent
    | under parent' above =>
      rw [parent] at parent'
      cases parent'
      rw [ih above]

theorem smallShallow (forest : t.Forest) (small : t.size ≤ maxAscent) : t.Shallow := by
  intro i n depth
  obtain ⟨m, also, bound⟩ := depthExists forest i
  cases depthSame depth also
  exact Nat.le_trans (Nat.le_trans bound (Nat.sub_le _ _)) small

end CallGuard.Tree
