import CallGuard.Proofs.Parser.Spans
import CallGuard.Proofs.Suspension.Scope

/-! Whether a place in a function runs after a suspension. The program goes outwards through plain closures
and asks each function around for a suspension that is over where the place, or the closure, begins. What an
inner function waits for never counts for an outer one: a suspension is never over where the function begins
that it belongs to, also where the text is malformed, because its word was taken as a token. The scan of a
very long function stops on the way and does not meet the suspensions further on, but all that begins before
a node that is evaluated it does meet. -/
namespace CallGuard

/- Calls and suspensions end behind the place where they begin. -/
def Tree.Wide (t : Tree) : Prop :=
  ∀ i, i < t.size → ∃ n, t.get? i = some n ∧ (n.kind.takesToken = true → n.start < n.stop)

namespace Parse
variable {strict : Bool} {s s' : ParseState} {ts : List Token} {ids : List NodeId}

theorem keptWide {t t' : Tree} {i : NodeId} (wide : t.Wide) (keeps : t.Keeps t') (old : i < t.size) :
    ∃ n, t'.get? i = some n ∧ (n.kind.takesToken = true → n.start < n.stop) := by
  obtain ⟨n, found, wide⟩ := wide i old
  obtain ⟨m, found', kept⟩ := keeps.kept i n found
  exact ⟨m, found', by rw [kept.kind, kept.start, kept.stop]; exact wide⟩

theorem addWide {t : Tree} {n : Node} (wide : t.Wide) (own : n.kind.takesToken = true → n.start < n.stop) :
    (t.add n).Wide := by
  intro i inside
  rw [Tree.addSize] at inside
  by_cases new : i = t.size
  · obtain ⟨m, found, kept⟩ := Tree.addKept t n
    exact ⟨m, new ▸ found, by rw [kept.kind, kept.start, kept.stop]; exact own⟩
  · exact keptWide wide (Tree.keepsAdd t n) (Nat.lt_of_le_of_ne (Nat.le_of_lt_succ inside) new)

/- The nodes that an answer names end where reading stopped, should they be drawn out. -/
theorem traceWide (trace : Trace strict s ts ids s') (ordered : s.cursor.Ordered) (before : s.tree.Wide) :
    s'.tree.Wide ∧ ∀ i ∈ ids, ∃ n, s'.tree.get? i = some n ∧
      (n.kind.takesToken = true → n.start < s'.cursor.prevStop) := by
  have none {s : ParseState} (wide : s.tree.Wide) : s.tree.Wide ∧ ∀ i ∈ ([] : List NodeId),
      ∃ n, s.tree.get? i = some n ∧ (n.kind.takesToken = true → n.start < s.cursor.prevStop) :=
    ⟨wide, List.forall_mem_nil _⟩
  induction trace with
  | rest => exact none before
  | chain first after one two =>
    obtain ⟨wide, named⟩ := one ordered before
    obtain ⟨wide', named'⟩ := two (traceOrdered first ordered) wide
    refine ⟨wide', fun i member => ?_⟩
    rcases List.mem_append.mp member with earlier | later
    · obtain ⟨n, found, early⟩ := named i earlier
      obtain ⟨m, found', kept⟩ := (traceKeeps after).1.kept i n found
      refine ⟨m, found', fun takes => ?_⟩
      rw [kept.kind] at takes
      rw [kept.start]
      exact Nat.lt_of_lt_of_le (early takes) (traceStop after (traceOrdered first ordered)).1
    · exact named' i later
  | forget part _ ih =>
    obtain ⟨wide, named⟩ := ih ordered before
    exact ⟨wide, fun i member => named i (part.subset member)⟩
  | take => exact none before
  | report => exact none before
  | look _ ih => exact none (ih ordered before).1
  | nest _ _ ih => exact ih ordered before
  | within _ _ ih => exact ih ordered before
  | @node s s' ts ids n before' _ _ place _ _ moves stops _ ih =>
    have wide := (ih ordered before).1
    have early (takes : n.kind.takesToken = true) : n.start < s'.cursor.prevStop := by
      rw [place]
      exact (traceStop before' ordered).2 (moves takes)
    refine ⟨addWide wide fun takes => stops (moves takes) ▸ early takes, fun i member => ?_⟩
    cases List.mem_singleton.mp member
    obtain ⟨m, found, kept⟩ := Tree.addKept s'.tree n
    exact ⟨m, found, by rw [kept.kind, kept.start]; exact early⟩
  | @hole s _ =>
    have plain : (omitted s.cursor.current.start).kind.takesToken ≠ true := nofun
    refine ⟨addWide before fun takes => absurd takes plain, fun i member => ?_⟩
    cases List.mem_singleton.mp member
    obtain ⟨m, found, kept⟩ := Tree.addKept s.tree (omitted s.cursor.current.start)
    exact ⟨m, found, fun takes => absurd (kept.kind ▸ takes) plain⟩
  | @flags s i marks =>
    refine none fun j inside => keptWide before (Tree.keepsFlags s.tree i marks) ?_
    simpa [Tree.size, Tree.addFlags] using inside
  | @stretch s s' ts i first ih =>
    obtain ⟨wide, named⟩ := ih ordered before
    obtain ⟨n, found, early⟩ := named i List.mem_cons_self
    have own := Tree.stopOwn found s'.cursor.prevStop
    refine ⟨fun j inside => ?_, fun j member => ?_⟩
    · by_cases same : i = j
      · subst same
        exact ⟨_, own, early⟩
      · rw [Tree.stopOther same]
        exact wide j (by simpa [Tree.size, Tree.setStop] using inside)
    · cases List.mem_singleton.mp member
      exact ⟨_, own, early⟩

end Parse

namespace Tree
variable {t : Tree} {f g i j body root : NodeId} {n m : Node} {offset : Nat}

/- What stands around a node: `k` functions out, the node itself for `k = 0`. -/
def functionsOut (t : Tree) : (k : Nat) → NodeId → Slot
  | 0, i => some i
  | k + 1, i => (t.enclosingFunction? i).bind (t.functionsOut k)

/- A function has a suspension of its own, in no class of its body, that ends before an offset. Of the
suspensions of a body only those count that are met. -/
def SuspendedBefore (t : Tree) (met : NodeId → NodeId → Prop) (f : NodeId) (offset : Nat) : Prop :=
  ∃ body i n, t.functionBody? f = some body ∧ met body i ∧ t.get? i = some n ∧
    n.kind.isSuspension = true ∧ t.Under body i ∧ t.enclosingFunction? i = some f ∧
    (∀ c, t.kind? c = some .classDeclaration → t.Under body c → t.Under c i → c = body) ∧ n.stop ≤ offset

/- `inner` is the node itself or a function around it, everything from the node out to `inner` runs
when the function around `inner` gets there, and by then that function was suspended. -/
def RunsSuspended (t : Tree) (met : NodeId → NodeId → Prop) (site : NodeId) : Prop :=
  ∃ k inner f n, t.functionsOut k site = some inner ∧ t.enclosingFunction? inner = some f ∧
    t.get? inner = some n ∧
    (∀ l g, 0 < l → l ≤ k → t.functionsOut l site = some g → t.kindIs NodeKind.isFunctionLiteral g = true) ∧
    (t.isContinuation f = true ∨ t.SuspendedBefore met f n.start)

/- What a walk from the root visits first holds all that begins before `late`. -/
def Covers (t : Tree) (root : NodeId) (visited : List NodeId) (late : Nat) : Prop :=
  ∀ j m, t.Under root j → t.get? j = some m → m.start < late → j ∈ visited.take maxVisits

/-! ### One function -/

/- Of the children of a function the body comes last. -/
theorem bodyLast (held : t.functionBody? f = some body) : ∃ front, t.children f = front ++ [body] := by
  obtain ⟨g, function, own⟩ := Option.bind_eq_some_iff.mp held
  unfold function? at function
  split at function <;> cases function
  rename_i holds
  have holds : t.payloadAt? f = some (.function g) := holds
  obtain ⟨n, found, _⟩ := Option.bind_eq_some_iff.mp holds
  have links : (Payload.function g).childrenAs n.kind = (Payload.function g).links := rfl
  refine ⟨(g.name :: (g.params.items ++ [g.type])).filterMap id, ?_⟩
  have row : t.children f = (Payload.function g).childrenAs n.kind := by rw [children, found, holds]
  have slots : (Payload.function g).slots = (g.name :: (g.params.items ++ [g.type])) ++ [some body] := by
    simp [Payload.slots, own]
  rw [row, links, Payload.links, slots, List.filterMap_append]
  rfl

section
variable {fits : NodeId → Node → Nat → Prop} {hi : Nat} (forest : t.Forest)
  (placed : t.Placed fits 0 [root] hi)
include forest placed

theorem startsUnder (reached : t.Under root i) (under : t.Under i j) : ∃ n m, t.get? i = some n ∧
    t.get? j = some m ∧ n.start ≤ m.start := by
  obtain ⟨n, mid, own, _, _, fit, below⟩ := placedUnder forest reached placed List.mem_cons_self
  have subtree : t.Placed fits n.start [i] mid :=
    .cons own (Nat.le_refl _) below fit (.nil (Nat.le_refl _))
  exact placedLater forest subtree List.mem_cons_self under

/- What stands under a function and not under its body begins before the body does. -/
theorem beforeBody (reached : t.Under root f) (held : t.functionBody? f = some body) (under : t.Under f i)
    (apart : f ≠ i) (outside : ¬ t.Under body i) (found : t.get? i = some n)
    (found' : t.get? body = some m) : n.start ≤ m.start := by
  obtain ⟨front, split⟩ := bodyLast held
  obtain ⟨k, _, own, _, _, _, below⟩ := placedUnder forest reached placed List.mem_cons_self
  rw [← childrenKids forest own, split] at below
  obtain ⟨mid, first, last⟩ := placedSplit below
  cases under with
  | self => exact absurd rfl apart
  | @down _ c _ child under =>
    rw [split] at child
    have inFront : c ∈ front := by
      rcases List.mem_append.mp child with front | body
      · exact front
      · cases List.mem_singleton.mp body
        exact absurd under outside
    obtain ⟨_, reach, there, _, order, _, inner⟩ := placedUnder forest under first inFront
    cases there.symm.trans found
    obtain ⟨_, _, there', behind, _⟩ := placedMem last List.mem_cons_self
    cases there'.symm.trans found'
    exact Nat.le_trans (Nat.le_trans (placedLe inner) order) behind

variable (linked : t.Linked) (shallow : t.Shallow) (wide : t.Wide)
include linked shallow wide

/- Where the body is itself a function, nothing of it is over where something of the outer one begins. -/
theorem innerNeverOver (around : t.enclosingFunction? i = some f) (reached : t.Under root f)
    (found : t.get? i = some n) (held : t.functionBody? f = some body)
    (function : t.kindIs NodeKind.isFunctionLike body = true) (under : t.Under body j)
    (found' : t.get? j = some m) (mark : m.kind.isSuspension = true) : n.start < m.stop := by
  have inner := (ancestorFound forest linked shallow).mp around
  have parent := (functionHeld forest held).2
  obtain ⟨above, _⟩ := parentAbove linked parent
  obtain ⟨b, m', own, there', inBody⟩ := startsUnder forest placed (underTrans reached above) under
  cases there'.symm.trans found'
  have beforeIt : n.start ≤ b.start := by
    by_cases same : body = i
    · subst same
      cases own.symm.trans found
      exact Nat.le_refl _
    · refine beforeBody forest placed reached held inner.around inner.apart (fun inside => ?_) found own
      have outer := underLe linked (inner.nearest body function inside same)
      exact absurd (linked.older f body (linked.child parent)) (Nat.not_lt.mpr outer)
  obtain ⟨_, there, early⟩ := wide j (getInside found')
  cases there.symm.trans found'
  exact Nat.lt_of_le_of_lt (Nat.le_trans beforeIt inBody) (early (Bool.or_eq_true_iff.mpr (.inr mark)))

/- The program counts the suspensions that the scan of the body meets. -/
theorem scannedExact (around : t.enclosingFunction? i = some f) (reached : t.Under root f)
    (found : t.get? i = some n) :
    t.hasSuspensionBefore f n.start = true ↔ t.SuspendedBefore t.Scanned f n.start := by
  constructor
  · intro before
    unfold hasSuspensionBefore at before
    split at before
    · rename_i body held
      obtain ⟨m, member, ended⟩ := List.any_eq_true.mp before
      have ended := of_decide_eq_true ended
      obtain ⟨j, scanned, found', mark, under, owned, free⟩ :=
        suspensionsSound forest linked shallow held member
      by_cases function : t.kindIs NodeKind.isFunctionLike body = true
      · have late := innerNeverOver forest placed linked shallow wide around reached found held function under
          found' mark
        exact absurd ended (Nat.not_le.mpr late)
      · rw [owner, if_neg function] at owned
        exact ⟨body, j, m, held, scanned, found', mark, under, owned, free, ended⟩
    · cases before
  · rintro ⟨body, j, m, held, scanned, found', mark, _, _, _, ended⟩
    rw [hasSuspensionBefore, held]
    exact List.any_eq_true.mpr ⟨m, suspensionsMet linked scanned found' mark, decide_eq_true ended⟩

variable {visited : List NodeId} {late : Nat} (walk : t.Walk [root] visited)
  (covers : t.Covers root visited late)
include walk covers

/- What is over before the walk from the root ends is met. -/
theorem suspendedExact (around : t.enclosingFunction? i = some f) (reached : t.Under root f)
    (found : t.get? i = some n) (early : n.start ≤ late) :
    t.hasSuspensionBefore f n.start = true ↔ t.SuspendedBefore (fun _ _ => True) f n.start := by
  rw [scannedExact forest placed linked shallow wide around reached found]
  constructor
  · rintro ⟨body, j, m, held, _, rest⟩
    exact ⟨body, j, m, held, trivial, rest⟩
  · rintro ⟨body, j, m, held, _, found', mark, under, owned, free, ended⟩
    have parent := (functionHeld forest held).2
    have own : t.owner f body = f := by
      refine if_neg fun function => ?_
      have inner := (ancestorFound forest linked shallow).mp owned
      have differ : body ≠ j := by
        rintro rfl
        rw [(suspensionPlain found' mark).1] at function
        cases function
      have outer := underLe linked (inner.nearest body function under differ)
      exact absurd (linked.older f body (linked.child parent)) (Nat.not_lt.mpr outer)
    have reached' := underTrans reached (parentAbove linked parent).1
    have begins : m.start < late := by
      obtain ⟨_, there, begins⟩ := wide j (getInside found')
      cases there.symm.trans found'
      have begins := begins (Bool.or_eq_true_iff.mpr (.inr mark))
      exact Nat.lt_of_lt_of_le begins (Nat.le_trans ended early)
    have taken := covers j m (underTrans reached' under) found' begins
    exact ⟨body, j, m, held, scannedReached forest linked shallow held walk reached' found' mark under
      (own.symm ▸ owned) free taken, found', mark, under, owned, free, ended⟩

end

/-! ### One function after the other -/

variable {met : NodeId → NodeId → Prop}

theorem runsStep (around : t.enclosingFunction? i = some f) (found : t.get? i = some n) :
    t.RunsSuspended met i ↔ (t.isContinuation f = true ∨ t.SuspendedBefore met f n.start) ∨
      t.kindIs NodeKind.isFunctionLiteral f = true ∧ t.RunsSuspended met f := by
  have out (k : Nat) : t.functionsOut (k + 1) i = t.functionsOut k f := by
    rw [functionsOut, around]
    rfl
  constructor
  · rintro ⟨k, inner, g, m, path, around', found', literal, later⟩
    cases k with
    | zero =>
      cases path
      cases around.symm.trans around'
      cases found.symm.trans found'
      exact .inl later
    | succ k =>
      rw [out] at path
      refine .inr ⟨literal 1 f (Nat.succ_pos 0) (Nat.succ_le_succ (Nat.zero_le k)) (out 0), ?_⟩
      exact ⟨k, inner, g, m, path, around', found', fun l h _ le there =>
        literal (l + 1) h (Nat.succ_pos l) (Nat.succ_le_succ le) ((out l).trans there), later⟩
  · rintro (later | ⟨own, k, inner, g, m, path, around', found', literal, later⟩)
    · exact ⟨0, i, f, n, rfl, around, found, fun l _ pos le => absurd pos (Nat.not_lt.mpr le), later⟩
    · refine ⟨k + 1, inner, g, m, (out k).trans path, around', found', fun l h pos le there => ?_, later⟩
      obtain ⟨l, rfl⟩ := Nat.exists_eq_succ_of_ne_zero (Nat.ne_of_gt pos)
      rw [out] at there
      cases l with
      | zero =>
        cases there
        exact own
      | succ l => exact literal (l + 1) h (Nat.succ_pos l) (Nat.le_of_succ_le_succ le) there

theorem followsAlone {limit : Nat} (around : t.enclosingFunction? i = none) :
    t.followsSuspensionIn limit (t.enclosingFunction? i) offset = true ↔ t.RunsSuspended met i := by
  have never : t.followsSuspensionIn limit none offset = false := by cases limit <;> rfl
  rw [around, never]
  refine ⟨nofun, ?_⟩
  rintro ⟨k, inner, f, n, path, around', _⟩
  cases k with
  | zero =>
    cases path
    cases around.symm.trans around'
  | succ k =>
    rw [functionsOut, around] at path
    cases path

theorem depthAbove {d : Nat} (linked : t.Linked) (under : t.Under f i) (apart : f ≠ i)
    (depth : t.Depth i d) : ∃ e, t.Depth f e ∧ e < d := by
  induction depth with
  | top root => exact absurd (underTop linked under root) apart
  | @under i p d parent above ih =>
    have higher := (underParent linked under parent).resolve_left apart
    by_cases here : f = p
    · exact ⟨d, here ▸ above, Nat.lt_succ_self d⟩
    · obtain ⟨e, depth, less⟩ := ih higher here
      exact ⟨e, depth, Nat.lt_succ_of_lt less⟩

section
variable {fits : NodeId → Node → Nat → Prop} {hi late : Nat} (forest : t.Forest)
  (placed : t.Placed fits 0 [root] hi) (linked : t.Linked) (shallow : t.Shallow)
  (top : t.parent? root = none)
include forest placed linked shallow top

/- What is known of each function is known of the way out through several. Each function further out is
less deep, so the bound on the way out is never reached. -/
theorem followsExact
    (each : ∀ {f i n}, t.enclosingFunction? i = some f → t.Under root f → t.get? i = some n →
      n.start ≤ late → (t.hasSuspensionBefore f n.start = true ↔ t.SuspendedBefore met f n.start))
    {limit d : Nat} (depth : t.Depth i d) (enough : d ≤ limit) (reached : t.Under root i)
    (found : t.get? i = some n) (early : n.start ≤ late) :
    t.followsSuspensionIn limit (t.enclosingFunction? i) n.start = true ↔ t.RunsSuspended met i := by
  induction limit generalizing i n d with
  | zero =>
    cases around : t.enclosingFunction? i with
    | none => exact around ▸ followsAlone around
    | some f =>
      have inner := (ancestorFound forest linked shallow).mp around
      obtain ⟨e, _, less⟩ := depthAbove linked inner.around inner.apart depth
      exact absurd (Nat.lt_of_lt_of_le less enough) (Nat.not_lt_zero e)
  | succ limit ih =>
    cases around : t.enclosingFunction? i with
    | none => exact around ▸ followsAlone around
    | some f =>
      have inner := (ancestorFound forest linked shallow).mp around
      obtain ⟨e, depth', less⟩ := depthAbove linked inner.around inner.apart depth
      have reached' : t.Under root f := by
        rcases underLinear linked reached inner.around with below | above
        · exact below
        · cases underTop linked above top
          exact .self _
      obtain ⟨m, n', found', there, before⟩ := startsUnder forest placed reached' inner.around
      cases there.symm.trans found
      have further := ih depth' (Nat.le_of_lt_succ (Nat.lt_of_lt_of_le less enough)) reached' found'
        (Nat.le_trans before early)
      have literal : t.kindIs NodeKind.isFunctionLiteral f = m.kind.isFunctionLiteral := by
        rw [kindIs, kind?, found']
        rfl
      have here := each around reached' found early
      rw [runsStep around found, ← here, literal, ← further, followsSuspensionIn, found']
      simp only [Bool.or_eq_true, Bool.and_eq_true]

end

/- Starts never go back along a walk, so what is visited has all before it visited. -/
theorem coversVisited {visited : List NodeId} (walk : t.Walk [root] visited)
    (order : visited.Pairwise t.Precedes) (visits : i ∈ visited.take maxVisits)
    (found : t.get? i = some n) : t.Covers root visited n.start := by
  intro j m under there early
  have member : j ∈ visited := (walkMem walk).mpr ⟨root, List.mem_cons_self, under⟩
  rw [← List.take_append_drop maxVisits visited] at member order
  refine (List.mem_append.mp member).resolve_right fun later => ?_
  have behind := ((List.pairwise_append.mp order).2.2 i visits j later n m found there).1
  exact absurd early (Nat.not_lt.mpr behind)

end Tree

namespace Program
open Parse

theorem treeWide (fileName : String) (text : List Char) : (parse fileName text).tree.Wide := by
  obtain ⟨_, taken, trace⟩ := statementsAgree text (fun _ => pure none) (Nat.le_refl _)
  have empty : (initialState (tokensOf text)).tree.Wide := by
    rw [initialTree]
    exact fun i inside => absurd inside (Nat.not_lt_zero i)
  exact addWide (traceWide trace (initialOrdered text) empty).1 fun takes => by cases takes

/- What stands at a node runs after a suspension exactly if the node, or the outermost of some plain
closures around it, stands in a function that runs later anyway, or behind a suspension of its own that the
scan of its body meets. At a node that the evaluation visits, all suspensions before it are met. -/
theorem suspensionTest (fileName : String) (text : List Char) (site : NodeId) :
    let p := parse fileName text
    let t := p.tree
    t.Under p.root site → t.Shallow →
      (t.followsSuspension site = true ↔ t.RunsSuspended t.Scanned site) ∧
      (site ∈ t.preorder (fun _ => true) p.root →
        (t.followsSuspension site = true ↔ t.RunsSuspended (fun _ _ => True) site)) := by
  intro p t reached shallow
  have forest : t.Forest := treeForest fileName text
  have linked : t.Linked := treeChildren fileName text
  have wide : t.Wide := treeWide fileName text
  obtain ⟨hi, placed⟩ := treePlaced fileName text
  obtain ⟨n, _, found, _⟩ := Tree.placedUnder forest reached placed List.mem_cons_self
  obtain ⟨d, depth, _⟩ := Tree.depthExists forest site
  have top : t.parent? p.root = none := rootFree fileName text
  rw [Tree.followsSuspension, found]
  refine ⟨Tree.followsExact forest placed linked shallow top
    (fun around reached found _ => Tree.scannedExact forest placed linked shallow wide around reached found)
    depth (shallow site d depth) reached found (Nat.le_refl _), fun visits => ?_⟩
  obtain ⟨visited, hi, charted⟩ := treeCharted fileName text
  have walk : t.Walk [p.root] visited := charted.walk
  rw [Tree.preorderTake (Tree.walkTour walk)] at visits
  exact Tree.followsExact forest placed linked shallow top
    (Tree.suspendedExact forest placed linked shallow wide walk
      (Tree.coversVisited walk charted.order visits found))
    depth (shallow site d depth) reached found (Nat.le_refl _)

end Program
end CallGuard
