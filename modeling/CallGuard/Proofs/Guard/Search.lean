import CallGuard.Proofs.Guard.Facts
import CallGuard.Proofs.Parser.Program

/-! The search for a guard answers with the nearest acceptable fact that controls the call, and
with nothing only if no such fact can be told from the end of a branch. -/
namespace CallGuard

/- The facts still ahead of a walk that has come to `child`. `seen` tells whether a row of
statements was passed before. -/
inductive Tree.Ahead (t : Tree) (leaves : Slot → Prop) : (seen : Bool) → (child : NodeId) →
    (level gap : Nat) → Fact → Prop where
  | branch {seen child current f} (parent : t.parent? child = some current)
      (fact : t.BranchFact current child f) : Ahead t leaves seen child 0 0 f
  | exit {child current row gap f} (parent : t.parent? child = some current)
      (list : t.statementList? current = some row) (fact : t.ExitFact leaves row child gap f) :
      Ahead t leaves false child 0 gap f
  | further {seen child current level gap f} (parent : t.parent? child = some current)
      (inside : t.kindIs NodeKind.isFunctionLike current = false)
      (rest : Ahead t leaves (seen || (t.statementList? current).isSome) current level gap f) :
      Ahead t leaves seen child (level + 1) gap f

/- What a search through facts has to answer. -/
def ConditionMatcher.Finds (m : ConditionMatcher) (facts : Nat → Nat → Fact → Prop) :
    Option GuardMatch → Prop
  | none => ∀ level gap f, facts level gap f → ¬ m.Accepts f
  | some g => ∃ level gap f, facts level gap f ∧ m.Accepts f ∧ f.guard = g.guard ∧
      f.kind = g.kind ∧ ∀ level' gap' f', facts level' gap' f' → m.Accepts f' →
        level < level' ∨ level = level' ∧ gap ≤ gap'

/- The scope is where a walk up has to stop. -/
inductive Tree.Bounds (t : Tree) (scope : NodeId) : NodeId → Prop where
  | top {child} (root : t.parent? child = none) : Bounds t scope child
  | here {child} (parent : t.parent? child = some scope)
      (stop : t.kindIs NodeKind.isFunctionLike scope = true ∨ t.parent? scope = none) :
      Bounds t scope child
  | further {child current} (parent : t.parent? child = some current) (other : current ≠ scope)
      (inside : t.kindIs NodeKind.isFunctionLike current = false)
      (rest : Bounds t scope current) : Bounds t scope child

namespace Tree
variable {t : Tree} {leaves : Slot → Prop} {site child : NodeId} {level gap : Nat} {f : Fact}

/-! ### Facts ahead are facts on the way -/

def seenIn (t : Tree) (passed : List NodeId) : Bool :=
  passed.any fun n => (t.statementList? n).isSome

theorem aheadControls {seen : Bool} (ahead : t.Ahead leaves seen child level gap f)
    {passed : List NodeId} (way : t.Ascends site passed child) (same : seen = t.seenIn passed) :
    t.Controls leaves site (passed.length + level) gap f := by
  induction ahead generalizing passed with
  | branch parent fact => exact .branch way parent fact
  | exit parent list fact =>
    refine .exit way parent (fun n own => ?_) list fact
    cases found : t.statementList? n with
    | none => rfl
    | some row =>
      have some' : t.seenIn passed = true := List.any_eq_true.mpr ⟨n, own, by simp [found]⟩
      rw [some'] at same
      cases same
  | @further seen child current level gap f parent inside rest ih =>
    have next := ih (.step way parent inside) (by simp [seenIn, same, Bool.or_comm])
    rwa [List.length_cons, Nat.add_right_comm] at next

theorem controlsAhead (controls : t.Controls leaves site level gap f) :
    t.Ahead leaves false site level gap f := by
  have down {passed : List NodeId} {child : NodeId} (way : t.Ascends site passed child)
      {level : Nat} (rest : t.Ahead leaves (t.seenIn passed) child level gap f) :
      t.Ahead leaves false site (passed.length + level) gap f := by
    induction way generalizing level with
    | start =>
      rw [List.length_nil, Nat.zero_add]
      exact rest
    | step before parent inside ih =>
      have next := ih (.further parent inside (by simpa [seenIn, Bool.or_comm] using rest))
      rwa [List.length_cons, Nat.add_right_comm]
  cases controls with
  | branch way parent fact => exact down way (.branch parent fact)
  | @exit passed child current row gap f way parent first list fact =>
    have unseen : t.seenIn passed = false := by
      refine List.any_eq_false.mpr fun n own => ?_
      simp [first n own]
    have rest : t.Ahead leaves (t.seenIn passed) child 0 gap f := by
      rw [unseen]
      exact .exit parent list fact
    exact down way rest

theorem aheadExact : t.Ahead leaves false site level gap f ↔ t.Controls leaves site level gap f :=
  ⟨fun ahead => by simpa using aheadControls ahead .start rfl, controlsAhead⟩

/-! ### Where a search stops -/

theorem functionBounds {n limit : Nat} {f : NodeId} (depth : t.Depth site n) (enough : n ≤ limit)
    (found : (t.chain limit (t.parent? site)).find? (t.kindIs NodeKind.isFunctionLike) = some f) :
    t.Bounds f site := by
  induction depth generalizing limit with
  | top root => exact .top root
  | @under i p n parent above ih =>
    obtain ⟨limit, rfl⟩ := Nat.exists_eq_add_of_le' (Nat.lt_of_lt_of_le (Nat.succ_pos n) enough)
    rw [parent] at found
    change (p :: t.chain limit (t.parent? p)).find? _ = some f at found
    cases stop : t.kindIs NodeKind.isFunctionLike p with
    | true =>
      rw [List.find?_cons_of_pos stop] at found
      cases found
      exact .here parent (.inl stop)
    | false =>
      rw [List.find?_cons_of_neg (by simp [stop])] at found
      have other : p ≠ f := by
        rintro rfl
        have := List.find?_some found
        rw [stop] at this
        cases this
      exact .further parent other stop (ih (Nat.le_of_succ_le_succ enough) found)

theorem rootBounds {n limit : Nat} {root : NodeId} (depth : t.Depth site n) (enough : n ≤ limit)
    (top : t.parent? root = none)
    (found : (t.chain limit (t.parent? site)).find? (t.kindIs NodeKind.isFunctionLike) = none) :
    t.Bounds root site := by
  induction depth generalizing limit with
  | top root => exact .top root
  | @under i p n parent above ih =>
    obtain ⟨limit, rfl⟩ := Nat.exists_eq_add_of_le' (Nat.lt_of_lt_of_le (Nat.succ_pos n) enough)
    rw [parent] at found
    change (p :: t.chain limit (t.parent? p)).find? _ = none at found
    have nowhere := List.find?_eq_none.mp found
    by_cases same : p = root
    · subst same
      exact .here parent (.inr top)
    · have inside := (Bool.not_eq_true _).mp (nowhere p List.mem_cons_self)
      have rest := List.find?_eq_none.mpr fun i own => nowhere i (List.mem_cons_of_mem p own)
      exact .further parent same inside (ih (Nat.le_of_succ_le_succ enough) rest)

end Tree

namespace ConditionMatcher
variable {m : ConditionMatcher} {scope : NodeId}

theorem rowOnce {current : NodeId} {row : List Slot} (forest : m.tree.Forest)
    (list : m.tree.statementList? current = some row) : (row.filterMap id).Nodup := by
  have links : m.tree.linksOf current = row.filterMap id := by
    unfold Tree.statementList? at list
    split at list <;> cases list
    · exact Tree.heldLinks forest ‹_›
    · exact Tree.heldLinks forest ‹_›
  rw [← links]
  exact forest.once current

theorem aheadParent {seen : Bool} {child : NodeId} {level gap : Nat} {f : Fact}
    (ahead : m.tree.Ahead m.tree.Ends seen child level gap f) :
    ∃ current, m.tree.parent? child = some current := by
  cases ahead with
  | branch parent _ => exact ⟨_, parent⟩
  | exit parent _ _ => exact ⟨_, parent⟩
  | further parent _ _ => exact ⟨_, parent⟩

/- Neither the node above nor a row of statements there says anything acceptable. -/
structure Silent (m : ConditionMatcher) (seen : Bool) (current child : NodeId) : Prop where
  parent : m.tree.parent? child = some current
  noBranch : m.branchGuard? current child = none
  noExit : seen = false → ∀ row, m.tree.statementList? current = some row →
    m.exitGuardBefore? row child = none

theorem silentFurther {seen : Bool} {current child : NodeId} {level gap : Nat} {f : Fact}
    (forest : m.tree.Forest) (shallow : m.tree.Shallow) (silent : m.Silent seen current child)
    (ahead : m.tree.Ahead m.tree.Ends seen child level gap f) (accepted : m.Accepts f) :
    ∃ less, level = less + 1 ∧ m.tree.kindIs NodeKind.isFunctionLike current = false ∧
      m.tree.Ahead m.tree.Ends (seen || (m.tree.statementList? current).isSome) current less gap
        f := by
  cases ahead with
  | branch parent fact =>
    cases silent.parent.symm.trans parent
    have found := factBranchGuard fact accepted
    rw [silent.noBranch] at found
    cases found
  | exit parent list fact =>
    cases silent.parent.symm.trans parent
    have found := factExitGuard forest shallow (rowOnce forest list) fact accepted
    rw [silent.noExit rfl _ list] at found
    cases found
  | further parent inside rest =>
    cases silent.parent.symm.trans parent
    exact ⟨_, rfl, inside, rest⟩

theorem findsFurther {current child : NodeId} {seen : Bool} {found : Option GuardMatch}
    (forest : m.tree.Forest) (shallow : m.tree.Shallow) (silent : m.Silent seen current child)
    (inside : m.tree.kindIs NodeKind.isFunctionLike current = false)
    (rest : m.Finds (m.tree.Ahead m.tree.Ends (seen || (m.tree.statementList? current).isSome)
      current) found) : m.Finds (m.tree.Ahead m.tree.Ends seen child) found := by
  cases found with
  | none =>
    intro level gap f ahead accepted
    obtain ⟨less, _, _, ahead'⟩ := silentFurther forest shallow silent ahead accepted
    exact rest less gap f ahead' accepted
  | some g =>
    obtain ⟨level, gap, f, ahead, accepted, guard, kind, nearest⟩ := rest
    refine ⟨level + 1, gap, f, .further silent.parent inside ahead, accepted, guard, kind, ?_⟩
    intro level' gap' f' ahead' accepted'
    obtain ⟨less, rfl, _, before⟩ := silentFurther forest shallow silent ahead' accepted'
    have := nearest less gap' f' before accepted'
    omega

theorem findsBranch {current child : NodeId} {kind : GuardKind} (seen : Bool)
    (parent : m.tree.parent? child = some current)
    (found : m.branchGuard? current child = some kind) :
    m.Finds (m.tree.Ahead m.tree.Ends seen child) (some ⟨kind, some scope, current⟩) := by
  obtain ⟨f, fact, accepted, guard, same⟩ := branchGuardFact found
  refine ⟨0, 0, f, .branch parent fact, accepted, guard, same, fun level' gap' f' _ _ => ?_⟩
  omega

theorem findsExit {current child g : NodeId} {row : List Slot} (forest : m.tree.Forest)
    (shallow : m.tree.Shallow) (parent : m.tree.parent? child = some current)
    (noBranch : m.branchGuard? current child = none)
    (list : m.tree.statementList? current = some row)
    (found : m.exitGuardBefore? row child = some g) :
    m.Finds (m.tree.Ahead m.tree.Ends false child) (some ⟨.earlyReturn, some scope, g⟩) := by
  obtain ⟨gap, f, fact, accepted, guard, kind, nearest⟩ :=
    exitGuardFact forest shallow (rowOnce forest list) found
  refine ⟨0, gap, f, .exit parent list fact, accepted, guard, kind, ?_⟩
  intro level' gap' f' ahead accepted'
  cases ahead with
  | branch parent' fact' =>
    cases parent.symm.trans parent'
    have found' := factBranchGuard fact' accepted'
    rw [noBranch] at found'
    cases found'
  | exit parent' list' fact' =>
    cases parent.symm.trans parent'
    cases list.symm.trans list'
    exact .inr ⟨rfl, nearest gap' f' fact' accepted'⟩
  | further _ _ _ => exact .inl (Nat.succ_pos _)

/- `seen` is what the search has to know of the way behind it. -/
theorem searchFinds (forest : m.tree.Forest) (shallow : m.tree.Shallow) {child : NodeId}
    {n limit : Nat} (depth : m.tree.Depth child n) (enough : n ≤ limit) (seen : Bool)
    (bounds : m.tree.Bounds scope child) :
    m.Finds (m.tree.Ahead m.tree.Ends seen child)
      (m.search scope seen child (m.tree.chain limit (m.tree.parent? child))) := by
  induction depth generalizing limit seen with
  | top root =>
    rw [root]
    have empty : m.tree.chain limit none = [] := by cases limit <;> rfl
    rw [empty]
    intro level gap f ahead
    obtain ⟨current, parent⟩ := aheadParent ahead
    rw [root] at parent
    cases parent
  | @under child p n parent above ih =>
    obtain ⟨limit, rfl⟩ := Nat.exists_eq_add_of_le' (Nat.lt_of_lt_of_le (Nat.succ_pos n) enough)
    rw [parent]
    change m.Finds _ (m.search scope seen child (p :: m.tree.chain limit (m.tree.parent? p)))
    rw [search]
    cases branch : m.branchGuard? p child with
    | some kind => exact findsBranch seen parent branch
    | none =>
      dsimp only
      cases exit : (if seen = true then none else m.tree.statementList? p).bind
          fun row => m.exitGuardBefore? row child with
      | some g =>
        obtain ⟨row, list, found⟩ := Option.bind_eq_some_iff.mp exit
        cases seen with
        | true => cases list
        | false => exact findsExit forest shallow parent branch list found
      | none =>
        have silent : m.Silent seen p child := by
          refine ⟨parent, branch, ?_⟩
          rintro rfl row list
          simpa [list] using exit
        dsimp only
        split
        · rename_i same
          intro level gap f ahead accepted
          obtain ⟨less, _, inside, rest⟩ := silentFurther forest shallow silent ahead accepted
          cases bounds with
          | top root => rw [root] at parent; cases parent
          | here parent' stop =>
            subst same
            rcases stop with function | top
            · rw [function] at inside
              cases inside
            · obtain ⟨q, higher⟩ := aheadParent rest
              rw [top] at higher
              cases higher
          | further parent' other _ _ =>
            cases parent.symm.trans parent'
            exact other same
        · rename_i other
          have flag : (seen || (if seen = true then none else m.tree.statementList? p).isSome) =
              (seen || (m.tree.statementList? p).isSome) := by cases seen <;> rfl
          rw [flag]
          cases bounds with
          | top root => rw [root] at parent; cases parent
          | here parent' _ => exact absurd (Option.some.inj (parent.symm.trans parent')) other
          | further parent' _ inside bounds =>
            cases parent.symm.trans parent'
            exact findsFurther forest shallow silent inside
              (ih (Nat.le_of_succ_le_succ enough) _ bounds)

theorem searchScope {seen : Bool} {child : NodeId} {above : List NodeId} {g : GuardMatch}
    (found : m.search scope seen child above = some g) : g.scope = some scope := by
  induction above generalizing seen child with
  | nil => cases found
  | cons current above ih =>
    rw [search] at found
    split at found
    · cases found; rfl
    · split at found
      · cases found; rfl
      · split at found
        · cases found
        · exact ih found

end ConditionMatcher

/-! ### The guard of a call -/

namespace Tree
variable {t : Tree} {root site : NodeId} {subject : Subject} {predicates : List Predicate}
  {m : ConditionMatcher}

theorem scopeBounds (forest : t.Forest) (shallow : t.Shallow) (top : t.parent? root = none)
    (site : NodeId) : t.Bounds ((t.enclosingFunction? site).getD root) site := by
  obtain ⟨n, depth, _⟩ := depthExists forest site
  cases found : t.enclosingFunction? site with
  | none => exact rootBounds depth (shallow site n depth) top found
  | some f => exact functionBounds depth (shallow site n depth) found

/- In a callback that runs later the guard that is found only changes its kind. -/
theorem conditionGuardSearch (matcher : t.matcher? subject predicates = some m) :
    t.conditionGuard? root site subject predicates =
      (m.search ((t.enclosingFunction? site).getD root) false site (t.ancestors site)).map fun g =>
        if (t.enclosingFunction? site).any t.isContinuation then { g with kind := .nestedCallback }
        else g := by
  rw [conditionGuard?, matcher]
  cases found : t.enclosingFunction? site with
  | none => simp
  | some f =>
    simp only [Option.bind_eq_bind, Option.bind_some, Option.getD_some, Option.any_some]
    cases m.search f false site (t.ancestors site) <;> rfl

end Tree

namespace Program

theorem guardFinds (fileName : String) (text : List Char) (site : NodeId) {subject : Subject}
    {predicates : List Predicate} {m : ConditionMatcher} :
    let p := parse fileName text
    let t := p.tree
    t.Shallow → t.matcher? subject predicates = some m →
      m.Finds (t.Ahead t.Ends false site)
        (m.search ((t.enclosingFunction? site).getD p.root) false site (t.ancestors site)) := by
  intro p t shallow found
  have forest : t.Forest := treeForest fileName text
  have top : t.parent? p.root = none :=
    (Tree.builtForest (treeBuilt fileName text)).2.free p.root List.mem_cons_self
  obtain ⟨n, depth, _⟩ := Tree.depthExists forest site
  obtain ⟨key, _, rfl⟩ := Option.map_eq_some_iff.mp found
  exact ConditionMatcher.searchFinds forest shallow depth (shallow site n depth) false
    (Tree.scopeBounds forest shallow top site)

theorem guardSilence (fileName : String) (text : List Char) (site : NodeId) {subject : Subject}
    {predicates : List Predicate} {m : ConditionMatcher} :
    let p := parse fileName text
    let t := p.tree
    t.Shallow → t.matcher? subject predicates = some m →
      (t.conditionGuard? p.root site subject predicates = none ↔
        ∀ level gap f, t.Controls t.Ends site level gap f → ¬ m.Accepts f) := by
  intro p t shallow matcher
  have answer := guardFinds fileName text site shallow matcher
  rw [Tree.conditionGuardSearch matcher, Option.map_eq_none_iff]
  constructor
  · intro nothing level gap f controls
    rw [nothing] at answer
    exact answer level gap f (Tree.aheadExact.mpr controls)
  · intro silent
    cases searched : m.search _ false site (t.ancestors site) with
    | none => rfl
    | some g =>
      rw [searched] at answer
      obtain ⟨level, gap, f, ahead, accepted, _⟩ := answer
      exact absurd accepted (silent level gap f (Tree.aheadExact.mp ahead))

/- What is found is the nearest of the acceptable facts that can be told from the end of a branch,
and nothing is found only if there is none of them. These are all facts unless a block goes on
behind a statement that stops. -/
theorem guardControls (fileName : String) (text : List Char) (site : NodeId) (subject : Subject)
    (predicates : List Predicate) :
    let p := parse fileName text
    let t := p.tree
    t.Shallow →
      (∀ g, t.conditionGuard? p.root site subject predicates = some g →
        ∃ m, t.matcher? subject predicates = some m ∧
          ∃ level gap f, t.Controls t.Stops site level gap f ∧ m.Accepts f ∧
            g.guard = f.guard ∧
            g.scope = some ((t.enclosingFunction? site).getD p.root) ∧
            g.kind = (if (t.enclosingFunction? site).any t.isContinuation then .nestedCallback
              else f.kind) ∧
            ∀ level' gap' f', t.Controls t.Ends site level' gap' f' → m.Accepts f' →
              level < level' ∨ level = level' ∧ gap ≤ gap') ∧
      ∀ m, t.matcher? subject predicates = some m →
        (t.conditionGuard? p.root site subject predicates = none ↔
          ∀ level gap f, t.Controls t.Ends site level gap f → ¬ m.Accepts f) ∧
        (t.Live → (t.conditionGuard? p.root site subject predicates = none ↔
          ∀ level gap f, t.Controls t.Stops site level gap f → ¬ m.Accepts f)) := by
  intro p t shallow
  constructor
  · intro g found
    obtain ⟨m, matcher, _⟩ := Option.bind_eq_some_iff.mp found
    refine ⟨m, matcher, ?_⟩
    rw [Tree.conditionGuardSearch matcher] at found
    obtain ⟨h, searched, rfl⟩ := Option.map_eq_some_iff.mp found
    have answer := guardFinds fileName text site shallow matcher
    rw [searched] at answer
    obtain ⟨level, gap, f, ahead, accepted, guard, kind, nearest⟩ := answer
    have controls := Tree.controlsWeaken (fun s => Tree.endsStops) (Tree.aheadExact.mp ahead)
    have scope := ConditionMatcher.searchScope searched
    refine ⟨level, gap, f, controls, accepted, ?_, ?_, ?_, fun level' gap' f' controls' => ?_⟩
    · split <;> exact guard.symm
    · split <;> exact scope
    · split
      · rfl
      · exact kind.symm
    · exact nearest level' gap' f' (Tree.aheadExact.mpr controls')
  · intro m matcher
    have silence := guardSilence fileName text site shallow matcher
    refine ⟨silence, fun live => silence.trans ⟨fun silent level gap f controls => ?_,
      fun silent level gap f controls => ?_⟩⟩
    · exact silent level gap f (Tree.controlsWeaken (fun s => Tree.stopsEnds live) controls)
    · exact silent level gap f (Tree.controlsWeaken (fun s => Tree.endsStops) controls)

/- The call comes after an early return. -/
theorem earlyReturnControls :
    let p := parse "f" "function f() { if (a.closed) return; a.add(1); }".toList
    let g : GuardMatch := ⟨.earlyReturn, some 13, 5⟩
    p.tree.conditionGuard? p.root 10 (.expr (some 6)) [⟨"closed", false⟩] = some g ∧
      ∃ m level gap f, p.tree.matcher? (.expr (some 6)) [⟨"closed", false⟩] = some m ∧
        p.tree.Controls p.tree.Stops 10 level gap f ∧ m.Accepts f ∧ g.guard = f.guard := by
  intro p g
  have found : p.tree.conditionGuard? p.root 10 (.expr (some 6)) [⟨"closed", false⟩] = some g := by
    decide +kernel
  have small : p.tree.size ≤ maxAscent := by decide +kernel
  have shallow := Tree.smallShallow (treeForest _ _) small
  obtain ⟨m, matcher, level, gap, f, controls, accepted, guard, _⟩ :=
    (guardControls _ _ 10 (.expr (some 6)) _ shallow).1 g found
  exact ⟨found, m, level, gap, f, matcher, controls, accepted, guard⟩

end Program
end CallGuard
