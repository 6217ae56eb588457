import CallGuard.Proofs.Guard.Completion
import Mathlib.Tactic.ByContra

/-! What is known when a place is reached: tests on the way up to its function had some value, or
else another branch would have been taken or an earlier statement would not have gone on. -/
namespace CallGuard

/- The test had the value. `guard` is the node that says so. -/
structure Fact where
  test : Slot
  value : Bool
  guard : NodeId
  kind : GuardKind

def ConditionMatcher.Accepts (m : ConditionMatcher) (f : Fact) : Prop :=
  (if f.value then m.affirms f.test else m.denies f.test) = true

namespace Tree

inductive BranchFact (t : Tree) (current child : NodeId) : Fact → Prop where
  | thenBranch {b} (held : t.payloadAt? current = some (.branch b))
      (via : b.thenBranch = some child) : BranchFact t current child ⟨b.test, true, current, .directIf⟩
  | elseBranch {b} (held : t.payloadAt? current = some (.branch b))
      (via : b.elseBranch = some child) : BranchFact t current child ⟨b.test, false, current, .directIf⟩
  | whenTrue {c} (held : t.payloadAt? current = some (.conditional c))
      (via : c.whenTrue = some child) :
      BranchFact t current child ⟨c.condition, true, current, .conditional⟩
  | whenFalse {c} (held : t.payloadAt? current = some (.conditional c))
      (via : c.whenFalse = some child) :
      BranchFact t current child ⟨c.condition, false, current, .conditional⟩
  | afterAnd {b} (held : t.payloadAt? current = some (.binary b)) (via : b.right = some child)
      (op : b.op = .token (.punct .ampersandAmpersand)) :
      BranchFact t current child ⟨b.left, true, current, .conditional⟩
  | afterOr {b} (held : t.payloadAt? current = some (.binary b)) (via : b.right = some child)
      (op : b.op = .token (.punct .barBar)) :
      BranchFact t current child ⟨b.left, false, current, .conditional⟩

/- Of an earlier statement in the row, `gap` statements before the child. -/
inductive ExitFact (t : Tree) (leaves : Slot → Prop) (row : List Slot) (child : NodeId) :
    (gap : Nat) → Fact → Prop where
  | thenLeaves {earlier between later g b}
      (place : row = earlier ++ some g :: between ++ some child :: later)
      (held : t.payloadAt? g = some (.branch b)) (gone : leaves b.thenBranch) :
      ExitFact t leaves row child between.length ⟨b.test, false, g, .earlyReturn⟩
  | elseLeaves {earlier between later g b}
      (place : row = earlier ++ some g :: between ++ some child :: later)
      (held : t.payloadAt? g = some (.branch b)) (gone : leaves b.elseBranch) :
      ExitFact t leaves row child between.length ⟨b.test, true, g, .earlyReturn⟩

/- The way up from a site within its function. `passed` has the nodes above the site, the last one
first, and none of them is a function. -/
inductive Ascends (t : Tree) (site : NodeId) : (passed : List NodeId) → NodeId → Prop where
  | start : Ascends t site [] site
  | step {passed child current} (before : Ascends t site passed child)
      (parent : t.parent? child = some current)
      (inside : t.kindIs NodeKind.isFunctionLike current = false) :
      Ascends t site (current :: passed) current

/- Only the first row of statements on the way counts. `leaves` tells which branches are left. -/
inductive Controls (t : Tree) (leaves : Slot → Prop) (site : NodeId) :
    (level gap : Nat) → Fact → Prop where
  | branch {passed child current f} (way : t.Ascends site passed child)
      (parent : t.parent? child = some current) (fact : t.BranchFact current child f) :
      Controls t leaves site passed.length 0 f
  | exit {passed child current row gap f} (way : t.Ascends site passed child)
      (parent : t.parent? child = some current)
      (first : ∀ n ∈ passed, t.statementList? n = none)
      (list : t.statementList? current = some row) (fact : t.ExitFact leaves row child gap f) :
      Controls t leaves site passed.length gap f

theorem exitFactWeaken {t : Tree} {leaves also : Slot → Prop} {row : List Slot} {child : NodeId}
    {gap : Nat} {f : Fact} (weaker : ∀ s, leaves s → also s)
    (fact : t.ExitFact leaves row child gap f) : t.ExitFact also row child gap f := by
  cases fact with
  | thenLeaves place held gone => exact .thenLeaves place held (weaker _ gone)
  | elseLeaves place held gone => exact .elseLeaves place held (weaker _ gone)

theorem controlsWeaken {t : Tree} {leaves also : Slot → Prop} {site : NodeId} {level gap : Nat}
    {f : Fact} (weaker : ∀ s, leaves s → also s) (controls : t.Controls leaves site level gap f) :
    t.Controls also site level gap f := by
  cases controls with
  | branch way parent fact => exact .branch way parent fact
  | exit way parent first list fact =>
    exact .exit way parent first list (exitFactWeaken weaker fact)

end Tree

/-! ### Facts at one node -/

namespace ConditionMatcher
variable {m : ConditionMatcher} {current child : NodeId}

theorem branchGuardFact {kind : GuardKind} (found : m.branchGuard? current child = some kind) :
    ∃ f, m.tree.BranchFact current child f ∧ m.Accepts f ∧ f.guard = current ∧ f.kind = kind := by
  unfold branchGuard? at found
  split at found
  · rename_i b held
    split at found <;> cases found
    rename_i accepted
    simp only [Bool.or_eq_true, Bool.and_eq_true, beq_iff_eq] at accepted
    rcases accepted with ⟨via, safe⟩ | ⟨via, safe⟩
    · exact ⟨_, .thenBranch held via, safe, rfl, rfl⟩
    · exact ⟨_, .elseBranch held via, safe, rfl, rfl⟩
  · rename_i c held
    split at found <;> cases found
    rename_i accepted
    simp only [Bool.or_eq_true, Bool.and_eq_true, beq_iff_eq] at accepted
    rcases accepted with ⟨via, safe⟩ | ⟨via, safe⟩
    · exact ⟨_, .whenTrue held via, safe, rfl, rfl⟩
    · exact ⟨_, .whenFalse held via, safe, rfl, rfl⟩
  · rename_i b held
    split at found <;> cases found
    rename_i accepted
    simp only [Bool.or_eq_true, Bool.and_eq_true, beq_iff_eq] at accepted
    obtain ⟨via, ⟨op, safe⟩ | ⟨op, safe⟩⟩ := accepted
    · exact ⟨_, .afterAnd held via op, safe, rfl, rfl⟩
    · exact ⟨_, .afterOr held via op, safe, rfl, rfl⟩
  · cases found

theorem factBranchGuard {f : Fact} (fact : m.tree.BranchFact current child f)
    (accepted : m.Accepts f) : (m.branchGuard? current child).isSome = true := by
  unfold branchGuard?
  cases fact with
  | thenBranch held via => rw [held]; simp [via, show m.affirms _ = true from accepted]
  | elseBranch held via => rw [held]; simp [via, show m.denies _ = true from accepted]
  | whenTrue held via => rw [held]; simp [via, show m.affirms _ = true from accepted]
  | whenFalse held via => rw [held]; simp [via, show m.denies _ = true from accepted]
  | afterAnd held via op => rw [held]; simp [via, op, show m.affirms _ = true from accepted]
  | afterOr held via op => rw [held]; simp [via, op, show m.denies _ = true from accepted]

/-! ### Facts from a row of statements -/

theorem exitGuardHeld (forest : m.tree.Forest) (shallow : m.tree.Shallow) (s : Slot) :
    m.isExitGuard s = true ↔ ∃ g b, s = some g ∧ m.tree.payloadAt? g = some (.branch b) ∧
      (m.denies b.test = true ∧ m.tree.Ends b.thenBranch ∨
        m.affirms b.test = true ∧ m.tree.Ends b.elseBranch) := by
  unfold isExitGuard
  constructor
  · intro h
    split at h
    · rename_i b found
      obtain ⟨g, rfl, held⟩ := Option.bind_eq_some_iff.mp (Tree.branchHeld found)
      simp only [Bool.or_eq_true, Bool.and_eq_true, Tree.exitsExact forest shallow] at h
      exact ⟨g, b, rfl, held, h.imp id fun h => ⟨h.1.2, h.2⟩⟩
    · cases h
  · rintro ⟨g, b, rfl, held, h⟩
    have found : m.tree.branch? (some g) = some b := by simp [Tree.branch?, Tree.payload?, held]
    have there (ends : m.tree.Ends b.elseBranch) : b.elseBranch.isSome = true := by
      obtain ⟨i, same⟩ := Tree.endsThere ends
      rw [same]
      rfl
    rw [found]
    simp only [Bool.or_eq_true, Bool.and_eq_true, Tree.exitsExact forest shallow]
    exact h.imp id fun h => ⟨⟨there h.2, h.1⟩, h.2⟩

theorem firstFound {α : Type} {p : α → Bool} {l : List α} {a : α} (found : l.find? p = some a) :
    ∃ skipped rest, l = skipped ++ a :: rest ∧ p a = true ∧
      ∀ other b more, l = other ++ b :: more → p b = true → skipped.length ≤ other.length := by
  obtain ⟨good, skipped, rest, split, bad⟩ := List.find?_eq_some_iff_append.mp found
  refine ⟨skipped, rest, split, good, fun other b more split' good' => ?_⟩
  by_contra shorter
  have inside : other.length < skipped.length := Nat.not_le.mp shorter
  have front : (skipped ++ a :: rest)[other.length]? = skipped[other.length]? :=
    List.getElem?_append_left inside
  have here : skipped[other.length]? = some b := by
    rw [← front, ← split, split']
    simp
  have no := bad b (List.mem_of_getElem? here)
  rw [good'] at no
  cases no

theorem aloneBefore {row before after : List Slot} (once : (row.filterMap id).Nodup)
    (place : row = before ++ some child :: after) :
    row.takeWhile (· != some child) = before := by
  subst place
  rw [List.filterMap_append] at once
  have apart := (List.nodup_append.mp once).2.2
  have others : ∀ s ∈ before, (s != some child) = true := by
    intro s own
    rw [bne_iff_ne]
    rintro rfl
    exact apart child (List.mem_filterMap.mpr ⟨_, own, rfl⟩) child (by simp) rfl
  rw [List.takeWhile_append_of_pos others]
  simp

theorem exitGuardRow {row before after : List Slot} (once : (row.filterMap id).Nodup)
    (place : row = before ++ some child :: after) :
    m.exitGuardBefore? row child = (before.reverse.find? m.isExitGuard).join := by
  have there : row.contains (some child) = true := by simp [place]
  rw [exitGuardBefore?, if_pos there, aloneBefore once place]

theorem exitFactGuard {row : List Slot} {gap : Nat} {f : Fact} (forest : m.tree.Forest)
    (shallow : m.tree.Shallow) (fact : m.tree.ExitFact m.tree.Ends row child gap f)
    (accepted : m.Accepts f) : ∃ earlier between later s,
      row = (earlier ++ s :: between) ++ some child :: later ∧ between.length = gap ∧
        m.isExitGuard s = true := by
  cases fact with
  | thenLeaves place held gone =>
    refine ⟨_, _, _, _, place, rfl, (exitGuardHeld forest shallow _).mpr ?_⟩
    exact ⟨_, _, rfl, held, .inl ⟨accepted, gone⟩⟩
  | elseLeaves place held gone =>
    refine ⟨_, _, _, _, place, rfl, (exitGuardHeld forest shallow _).mpr ?_⟩
    exact ⟨_, _, rfl, held, .inr ⟨accepted, gone⟩⟩

/- The nearest statement that says something acceptable is found. -/
theorem exitGuardFact {row : List Slot} {g : NodeId} (forest : m.tree.Forest)
    (shallow : m.tree.Shallow) (once : (row.filterMap id).Nodup)
    (found : m.exitGuardBefore? row child = some g) :
    ∃ gap f, m.tree.ExitFact m.tree.Ends row child gap f ∧ m.Accepts f ∧ f.guard = g ∧
      f.kind = .earlyReturn ∧ ∀ gap' f', m.tree.ExitFact m.tree.Ends row child gap' f' →
        m.Accepts f' → gap ≤ gap' := by
  have inRow : some child ∈ row := by
    unfold exitGuardBefore? at found
    split at found
    · rename_i there
      simpa using there
    · cases found
  obtain ⟨before, after, place⟩ := List.append_of_mem inRow
  rw [exitGuardRow once place, Option.join_eq_some_iff] at found
  obtain ⟨skipped, rest, split, good, least⟩ := firstFound found
  have order : before = rest.reverse ++ some g :: skipped.reverse := by
    have := congrArg List.reverse split
    simpa using this
  have placed : row = rest.reverse ++ some g :: skipped.reverse ++ some child :: after := by
    rw [place, order]
  have nearest (gap' : Nat) (f' : Fact) (fact : m.tree.ExitFact m.tree.Ends row child gap' f')
      (accepted : m.Accepts f') : skipped.reverse.length ≤ gap' := by
    obtain ⟨earlier, between, later, s, place', rfl, guards⟩ :=
      exitFactGuard forest shallow fact accepted
    have same : before = earlier ++ s :: between :=
      (aloneBefore once place).symm.trans (aloneBefore once place')
    have fewer := least between.reverse s earlier.reverse (by simp [same]) guards
    simpa using fewer
  obtain ⟨_, b, same, held, safe | safe⟩ := (exitGuardHeld forest shallow _).mp good
  · cases same
    exact ⟨_, _, .thenLeaves placed held safe.2, safe.1, rfl, rfl, nearest⟩
  · cases same
    exact ⟨_, _, .elseLeaves placed held safe.2, safe.1, rfl, rfl, nearest⟩

theorem factExitGuard {row : List Slot} {gap : Nat} {f : Fact} (forest : m.tree.Forest)
    (shallow : m.tree.Shallow) (once : (row.filterMap id).Nodup)
    (fact : m.tree.ExitFact m.tree.Ends row child gap f) (accepted : m.Accepts f) :
    (m.exitGuardBefore? row child).isSome = true := by
  obtain ⟨earlier, between, later, s, place, _, guards⟩ :=
    exitFactGuard forest shallow fact accepted
  rw [exitGuardRow once place]
  cases found : (earlier ++ s :: between).reverse.find? m.isExitGuard with
  | none => exact absurd guards (List.find?_eq_none.mp found s (by simp))
  | some g =>
    obtain ⟨i, _, rfl, _⟩ := (exitGuardHeld forest shallow g).mp (List.find?_some found)
    rfl

end ConditionMatcher
end CallGuard
