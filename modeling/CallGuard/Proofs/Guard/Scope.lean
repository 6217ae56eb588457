import CallGuard.Proofs.Guard.Search
import CallGuard.Proofs.Parser.Placed

/-! Where a guard stands. It is one of the nodes above the call, or it stands in a row of statements
that one of them holds, and no function is left on the way up to that node. So a guard and the call
that it protects are inside the same functions. Classes do not bound the search. -/
namespace CallGuard

namespace Tree

/- A node that can protect what was reached through `current`: the node itself, by one of its
branches, or an earlier statement of its row. -/
inductive Protects (t : Tree) (current : NodeId) : NodeId → Prop where
  | branch {f child} (fact : t.BranchFact current child f) : Protects t current current
  | statement {row g b} (list : t.statementList? current = some row) (own : some g ∈ row)
      (held : t.payloadAt? g = some (.branch b)) : Protects t current g

variable {t : Tree} {site child current g i : NodeId} {passed : List NodeId}

theorem branchFactPlain {f : Fact} (forest : t.Forest) (fact : t.BranchFact current child f) :
    t.kindIs NodeKind.isFunctionLike current = false := by
  cases fact with
  | thenBranch held | elseBranch held => exact heldPlain forest held (by simp [Payload.form])
  | whenTrue held | whenFalse held => exact heldPlain forest held (by simp [Payload.form])
  | afterAnd held | afterOr held => exact heldPlain forest held (by simp [Payload.form])

/- A row of statements is held by a block or by the file. -/
theorem statementListHeld {row : List Slot} (list : t.statementList? current = some row) :
    ∃ p, t.payloadAt? current = some p ∧ p.slots = row ∧ p.form ≠ .function := by
  unfold statementList? at list
  split at list <;> cases list
  · exact ⟨_, ‹_›, rfl, by simp [Payload.form]⟩
  · exact ⟨_, ‹_›, rfl, by simp [Payload.form]⟩

theorem protectsPlain (forest : t.Forest) (protects : t.Protects current g) :
    t.kindIs NodeKind.isFunctionLike current = false ∧
      t.kindIs NodeKind.isFunctionLike g = false := by
  cases protects with
  | branch fact => exact ⟨branchFactPlain forest fact, branchFactPlain forest fact⟩
  | statement list own held =>
    obtain ⟨p, holds, _, plain⟩ := statementListHeld list
    exact ⟨heldPlain forest holds plain, heldPlain forest held (by simp [Payload.form])⟩

/- What is around a guard is around the node through which it protects, and the other way round. -/
theorem protectsAround (forest : t.Forest) (linked : t.Linked) (protects : t.Protects current g)
    (other : i ≠ g) : t.Under i g ↔ t.Under i current := by
  cases protects with
  | branch => exact Iff.rfl
  | statement list own held =>
    obtain ⟨p, holds, slots, _⟩ := statementListHeld list
    have parent := heldParent forest holds (slots ▸ own)
    constructor
    · intro under
      exact (underParent linked under parent).resolve_left other
    · intro under
      exact underTrans under (.down (linked.child parent) (.self g))

/-! ### The way up -/

theorem ascendsUnder (linked : t.Linked) (way : t.Ascends site passed child) : t.Under child site := by
  induction way with
  | start => exact .self site
  | step _ parent _ below => exact .down (linked.child parent) below

/- A function around the site is not left before the way ends. -/
theorem ascendsWithin (linked : t.Linked) (way : t.Ascends site passed child)
    (function : t.kindIs NodeKind.isFunctionLike i = true) (other : i ≠ site)
    (around : t.Under i site) : i ≠ child ∧ t.Under i child := by
  induction way with
  | start => exact ⟨other, around⟩
  | @step passed child current _ parent inside ih =>
    obtain ⟨apart, above⟩ := ih
    refine ⟨?_, (underParent linked above parent).resolve_left apart⟩
    rintro rfl
    rw [function] at inside
    cases inside

end Tree

namespace ConditionMatcher
variable {m : ConditionMatcher} {scope site child g : NodeId} {passed : List NodeId}

theorem exitGuardProtects {current : NodeId} {row : List Slot}
    (list : m.tree.statementList? current = some row)
    (found : m.exitGuardBefore? row child = some g) : m.tree.Protects current g := by
  unfold exitGuardBefore? at found
  split at found
  · have first := Option.join_eq_some_iff.mp found
    have own := (List.takeWhile_sublist _).mem (List.mem_reverse.mp (List.mem_of_find?_eq_some first))
    have guards := List.find?_some first
    unfold isExitGuard at guards
    split at guards
    · rename_i b branch
      obtain ⟨_, same, held⟩ := Option.bind_eq_some_iff.mp (Tree.branchHeld branch)
      cases same
      exact .statement list own held
    · cases guards
  · cases found

/- The search goes up as far as the scope, and no function is nearer. -/
theorem searchAscends {limit : Nat} {seen : Bool} {found : GuardMatch}
    (way : m.tree.Ascends site passed child)
    (nearest : ∀ f, (m.tree.chain limit (m.tree.parent? child)).find?
      (m.tree.kindIs NodeKind.isFunctionLike) = some f → f = scope)
    (searched : m.search scope seen child (m.tree.chain limit (m.tree.parent? child)) = some found) :
    ∃ passed child current, m.tree.Ascends site passed child ∧
      m.tree.parent? child = some current ∧ m.tree.Protects current found.guard := by
  induction limit generalizing child passed seen with
  | zero => cases searched
  | succ limit ih =>
    cases parent : m.tree.parent? child with
    | none =>
      rw [parent] at searched
      cases searched
    | some p =>
      rw [parent] at searched nearest
      change m.search scope seen child (p :: m.tree.chain limit (m.tree.parent? p)) = _ at searched
      change ∀ f, (p :: m.tree.chain limit (m.tree.parent? p)).find? _ = some f → _ at nearest
      rw [search] at searched
      split at searched
      · rename_i kind guards
        obtain ⟨f, fact, _⟩ := branchGuardFact guards
        cases searched
        exact ⟨_, _, _, way, parent, .branch fact⟩
      · split at searched
        · rename_i guard exits
          obtain ⟨row, list, exit⟩ := Option.bind_eq_some_iff.mp exits
          cases searched
          have found : m.tree.statementList? p = some row := by
            split at list
            · cases list
            · exact list
          exact ⟨_, _, _, way, parent, exitGuardProtects found exit⟩
        · split at searched
          · cases searched
          · rename_i other
            cases stop : m.tree.kindIs NodeKind.isFunctionLike p with
            | true => exact absurd (nearest p (List.find?_cons_of_pos stop)) other
            | false =>
              refine ih (.step way parent stop) (fun f first => nearest f ?_) searched
              rw [List.find?_cons_of_neg (by simp [stop])]
              exact first

end ConditionMatcher

namespace Program

/- Everything around a guard is around the call, and every function around the call is around the
guard. -/
theorem guardSurroundings (fileName : String) (text : List Char) (site : NodeId) (subject : Subject)
    (predicates : List Predicate) :
    let p := parse fileName text
    let t := p.tree
    ∀ g, t.conditionGuard? p.root site subject predicates = some g →
      (∀ i, t.Under i g.guard → i ≠ g.guard → t.Under i site ∧ i ≠ site) ∧
      ∀ i, t.kindIs NodeKind.isFunctionLike i = true → t.Under i site → i ≠ site →
        t.Under i g.guard ∧ i ≠ g.guard := by
  intro p t g found
  have forest : t.Forest := treeForest fileName text
  have linked : t.Linked := treeChildren fileName text
  obtain ⟨m, matcher, _⟩ := Option.bind_eq_some_iff.mp found
  rw [Tree.conditionGuardSearch matcher] at found
  obtain ⟨h, searched, rfl⟩ := Option.map_eq_some_iff.mp found
  obtain ⟨key, _, rfl⟩ := Option.map_eq_some_iff.mp matcher
  obtain ⟨passed, child, current, way, parent, protects⟩ :=
    ConditionMatcher.searchAscends .start (fun f first => by
      rw [show t.enclosingFunction? site = some f from first]
      rfl) searched
  have same : (if (t.enclosingFunction? site).any t.isContinuation then
      { h with kind := .nestedCallback } else h).guard = h.guard := by split <;> rfl
  rw [same]
  obtain ⟨plain, plainGuard⟩ := Tree.protectsPlain forest protects
  refine ⟨fun i under other => ?_, fun i function around other => ?_⟩
  · have above := (Tree.protectsAround forest linked protects other).mp under
    have below := Tree.ascendsUnder linked way
    refine ⟨Tree.underTrans above (.down (linked.child parent) below), ?_⟩
    have high := Tree.underLe linked above
    have low := Tree.underLe linked below
    have step := linked.older _ _ (linked.child parent)
    exact Nat.ne_of_gt (Nat.lt_of_le_of_lt low (Nat.lt_of_lt_of_le step high))
  · obtain ⟨apart, above⟩ := Tree.ascendsWithin linked way function other around
    have aboveCurrent := (Tree.underParent linked above parent).resolve_left apart
    have differ : i ≠ h.guard := by
      rintro rfl
      rw [function] at plainGuard
      cases plainGuard
    exact ⟨(Tree.protectsAround forest linked protects differ).mpr aboveCurrent, differ⟩

/- A class is no function: the test around it counts for the call in its field. -/
example :
    let p := parse "input.ts" "if (!a.isClosed) { class C { x = a.add(1); } }".toList
    (p.tree.nodes.toList.zipIdx.filter (·.1.kind == .callExpression)).map (fun call =>
      ((p.tree.callSite? call.2).bind fun site => p.tree.conditionGuard? p.root site.node
        site.subject [⟨"isClosed", false⟩]).map (·.kind)) = [some .directIf] := by decide +kernel

end Program
end CallGuard
