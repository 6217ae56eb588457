import CallGuard.Proofs.Fix.Facts

/-! What protects a call once fixes are made: all that branches told before, the tests that were
written around the call, and earlier statements as long as no new row of statements is around. -/
namespace CallGuard

namespace ConditionMatcher

/- What still protects a site once fixes are made: tests of branches as before, tests that fixes
wrote around it, and earlier statements when no fix put a row of statements below theirs. -/
inductive Keeps (m : ConditionMatcher) (v : Move) (m' : ConditionMatcher) (site : NodeId) : Prop where
  | branch {passed child current f} (way : m.tree.Ascends site passed child)
      (parent : m.tree.parent? child = some current) (fact : m.tree.BranchFact current child f)
      (accepted : m.Accepts f) : Keeps m v m' site
  | test {passed child test} (way : m.tree.Ascends site passed child)
      (written : (v.wrapping child).test? = some test) (affirmed : m'.affirms test = true) :
      Keeps m v m' site
  | exit {passed child current row gap f} (way : m.tree.Ascends site passed child)
      (parent : m.tree.parent? child = some current)
      (first : ∀ n ∈ passed, m.tree.statementList? n = none)
      (uncovered : ∀ n ∈ site :: passed, (v.wrapping n).row = false)
      (list : m.tree.statementList? current = some row)
      (fact : m.tree.ExitFact m.tree.Ends row child gap f) (accepted : m.Accepts f) :
      Keeps m v m' site

/- The same along the walk up. `seen` tells whether a row of the new tree was passed. -/
inductive Stays (m : ConditionMatcher) (v : Move) (m' : ConditionMatcher) :
    (seen : Bool) → (child : NodeId) → Prop where
  | branch {seen child current} (parent : m.tree.parent? child = some current)
      (told : m.Told current child) : Stays m v m' seen child
  | test {seen child test} (written : (v.wrapping child).test? = some test)
      (affirmed : m'.affirms test = true) : Stays m v m' seen child
  | exit {child current row} (parent : m.tree.parent? child = some current)
      (uncovered : (v.wrapping child).row = false)
      (list : m.tree.statementList? current = some row) (left : m.Left row child) :
      Stays m v m' false child
  | further {seen child current} (parent : m.tree.parent? child = some current)
      (inside : m.tree.kindIs NodeKind.isFunctionLike current = false)
      (rest : Stays m v m' (seen || (v.wrapping child).row || (m.tree.statementList? current).isSome)
        current) : Stays m v m' seen child

variable {m m' : ConditionMatcher} {v : Move} {seen : Bool} {child current i : NodeId} {test : Slot}
  {p : Payload}

/-! ### One step up -/

def Knows (m : ConditionMatcher) (seen : Bool) (child : NodeId) : Prop :=
  ∃ level gap f, m.tree.Ahead m.tree.Ends seen child level gap f ∧ m.Accepts f

theorem knowsTop (root : m.tree.parent? child = none) : ¬ m.Knows seen child := by
  rintro ⟨level, gap, f, ahead, _⟩
  obtain ⟨current, parent⟩ := aheadParent ahead
  rw [root] at parent
  cases parent

theorem knowsStep (parent : m.tree.parent? child = some current) :
    m.Knows seen child ↔ m.Told current child ∨
      (seen = false ∧ ∃ row, m.tree.statementList? current = some row ∧ m.Left row child) ∨
      m.tree.kindIs NodeKind.isFunctionLike current = false ∧
        m.Knows (seen || (m.tree.statementList? current).isSome) current := by
  constructor
  · rintro ⟨level, gap, f, ahead, accepted⟩
    cases ahead with
    | branch parent' fact =>
      cases parent.symm.trans parent'
      exact .inl ⟨f, fact, accepted⟩
    | exit parent' list fact =>
      cases parent.symm.trans parent'
      exact .inr (.inl ⟨rfl, _, list, _, f, fact, accepted⟩)
    | further parent' inside rest =>
      cases parent.symm.trans parent'
      exact .inr (.inr ⟨inside, _, _, f, rest, accepted⟩)
  · rintro (⟨f, fact, accepted⟩ | ⟨rfl, row, list, gap, f, fact, accepted⟩ |
      ⟨inside, level, gap, f, rest, accepted⟩)
    · exact ⟨0, 0, f, .branch parent fact, accepted⟩
    · exact ⟨0, gap, f, .exit parent list fact, accepted⟩
    · exact ⟨level + 1, gap, f, .further parent inside rest, accepted⟩

/-! ### Through what a fix wrote -/

theorem loneSilent : ¬ m.Left [some child] child := by
  rw [leftHeld]
  rintro ⟨earlier, between, later, g, b, place, _⟩
  have short := congrArg List.length place
  simp at short
  omega

theorem knowsUnder (forest : m.tree.Forest) (held : m.tree.payloadAt? current = some p)
    (own : some child ∈ p.slots) (plain : p.form ≠ .function)
    (alone : ∀ row, m.tree.statementList? current = some row → row = [some child]) :
    m.Knows seen child ↔
      (∃ test value, (some child, test, value) ∈ p.tells ∧ m.Safe test value) ∨
        m.Knows (seen || (m.tree.statementList? current).isSome) current := by
  have silent : ¬ (seen = false ∧
      ∃ row, m.tree.statementList? current = some row ∧ m.Left row child) := by
    rintro ⟨_, row, list, left⟩
    rw [alone row list] at left
    exact loneSilent left
  rw [knowsStep (Tree.heldParent forest held own), toldHeld held, Tree.heldPlain forest held plain]
  simp [silent]

theorem knowsChoice (forest : m.tree.Forest) {choice : NodeId}
    (chooses : m.tree.Chooses test child choice) :
    m.Knows seen child ↔ m.affirms test = true ∨ m.Knows true choice := by
  obtain @⟨block, l, held, body, alone⟩ := chooses
  have inBlock : m.tree.statementList? block = some l.items := by simp [Tree.statementList?, body]
  have inChoice : m.tree.statementList? choice = none := by simp [Tree.statementList?, held]
  have through : m.Knows seen child ↔ m.Knows true block := by
    rw [knowsUnder forest body (by simp [Payload.slots, alone]) (by simp [Payload.form]) (by simp [inBlock, alone]),
      inBlock]
    simp [Payload.tells]
  rw [through, knowsUnder forest held (by simp [Payload.slots]) (by simp [Payload.form]) (by simp [inChoice]), inChoice]
  simp [Payload.tells, Safe]

/- A test that was written around a node counts, and so does all that counted above it, but for
earlier statements when the node got a row of its own. -/
theorem knowsWrapped (follows : m.Follows v m') (inside : i < m.tree.size) :
    m'.Knows seen (v.inner i) ↔
      (∃ test, (v.wrapping i).test? = some test ∧ m'.affirms test = true) ∨
        m'.Knows (seen || (v.wrapping i).row) (v.outer i) := by
  have shape := follows.wrapped.wraps i inside
  unfold Move.outer
  generalize v.wrapping i = x at shape ⊢
  cases shape with
  | bare => simp
  | statement kind choice =>
    rw [knowsChoice follows.new choice]
    simp
  | @braced _ choice l outer kind held only chooses =>
    have inOuter : m'.tree.statementList? outer = some l.items := by simp [Tree.statementList?, held]
    rw [knowsChoice follows.new chooses, knowsUnder follows.new held (by simp [Payload.slots, only])
      (by simp [Payload.form]) (by simp [inOuter, only]), inOuter]
    simp [Payload.tells]
  | @body _ _ test other outer covered parent function choice =>
    have inOuter : m'.tree.statementList? outer = none := by simp [Tree.statementList?, choice]
    have apart : some (v.inner i) ≠ other := by
      rintro rfl
      have once := follows.new.once outer
      rw [Tree.heldLinks follows.new choice] at once
      cases test <;> simp [Payload.links, Payload.slots] at once
    rw [knowsUnder follows.new choice (by simp [Payload.slots]) (by simp [Payload.form]) (by simp [inOuter]), inOuter]
    simp [Payload.tells, apart, Safe]
  | @leaf _ c l outer site named kind held args alone =>
    have inOuter : m'.tree.statementList? outer = none := by simp [Tree.statementList?, held]
    rw [knowsUnder follows.new held (by simp [Payload.slots, args, alone]) (by simp [Payload.form]) (by simp [inOuter]),
      inOuter]
    simp [Payload.tells]
  | @parens outer enclosed =>
    have inOuter : m'.tree.statementList? outer = none := by simp [Tree.statementList?, enclosed.held]
    rw [knowsUnder follows.new enclosed.held (by simp [Payload.slots]) (by simp [Payload.form])
      (by simp [inOuter]), inOuter]
    simp [Payload.tells]

/-! ### All steps up -/

theorem knowsStays {n : Nat} (follows : m.Follows v m') (depth : m.tree.Depth child n)
    (within : child < m.tree.size) : m'.Knows seen (v.inner child) ↔ m.Stays v m' seen child := by
  have w := follows.wrapped
  induction depth generalizing seen with
  | @top child root =>
    rw [knowsWrapped follows within]
    have nothing : ¬ m'.Knows (seen || (v.wrapping child).row) (v.outer child) :=
      knowsTop (w.top child within root)
    constructor
    · rintro (⟨test, written, affirmed⟩ | known)
      · exact .test written affirmed
      · exact absurd known nothing
    · intro stays
      cases stays with
      | test written affirmed => exact .inl ⟨_, written, affirmed⟩
      | branch parent _ => rw [root] at parent; cases parent
      | exit parent _ _ _ => rw [root] at parent; cases parent
      | further parent _ _ => rw [root] at parent; cases parent
  | @under child current n parent above ih =>
    have inside : current < m.tree.size := by
      obtain ⟨p, held, _⟩ := Tree.parentHeld follows.old parent
      exact Tree.heldInside held
    have parent' := Tree.movedParent w follows.old follows.new parent
    have further (x : Bool) : m'.Knows x (v.inner current) ↔ m.Stays v m' x current := ih inside
    rw [knowsWrapped follows within, knowsStep parent', toldMoved follows parent,
      Tree.listMoved w inside, Option.isSome_map, further, Tree.kindIsMoved w inside]
    constructor
    · rintro (⟨test, written, affirmed⟩ | told | ⟨unseen, row, list, left⟩ | ⟨plain, stays⟩)
      · exact .test written affirmed
      · exact .branch parent told
      · obtain ⟨row, old, rfl⟩ := Option.map_eq_some_iff.mp list
        simp only [Bool.or_eq_false_iff] at unseen
        obtain ⟨rfl, uncovered⟩ := unseen
        exact .exit parent uncovered old ((leftMoved follows parent old).mp left)
      · exact .further parent plain stays
    · intro stays
      cases stays with
      | test written affirmed => exact .inl ⟨_, written, affirmed⟩
      | branch parent' told =>
        cases parent.symm.trans parent'
        exact .inr (.inl told)
      | exit parent' uncovered list left =>
        cases parent.symm.trans parent'
        refine .inr (.inr (.inl ⟨by simp [uncovered], _, by rw [list]; rfl, ?_⟩))
        exact (leftMoved follows parent list).mpr left
      | further parent' plain rest =>
        cases parent.symm.trans parent'
        exact .inr (.inr (.inr ⟨plain, rest⟩))

/- Whether a row was passed on the way: in the old tree among the nodes above the site, or written
by a fix around one of the nodes behind. -/
def passedRow (m : ConditionMatcher) (v : Move) (passed behind : List NodeId) : Bool :=
  m.tree.seenIn passed || behind.any fun n => (v.wrapping n).row

theorem passedOn (m : ConditionMatcher) (v : Move) (passed behind : List NodeId)
    (child current : NodeId) :
    m.passedRow v (current :: passed) (child :: behind) =
      (m.passedRow v passed behind || (v.wrapping child).row ||
        (m.tree.statementList? current).isSome) := by
  simp only [passedRow, Tree.seenIn, List.any_cons]
  cases (m.tree.statementList? current).isSome <;> cases (v.wrapping child).row <;> simp

theorem staysKeeps {site : NodeId} (stays : m.Stays v m' seen child) {passed behind : List NodeId}
    (way : m.tree.Ascends site passed child) (same : seen = m.passedRow v passed behind)
    (nodes : ∀ n ∈ site :: passed, n ∈ child :: behind) : m.Keeps v m' site := by
  induction stays generalizing passed behind with
  | branch parent told =>
    obtain ⟨f, fact, accepted⟩ := told
    exact .branch way parent fact accepted
  | test written affirmed => exact .test way written affirmed
  | exit parent uncovered list left =>
    obtain ⟨gap, f, fact, accepted⟩ := left
    obtain ⟨unseen, bare⟩ := Bool.or_eq_false_iff.mp same.symm
    refine .exit way parent (fun n own => ?_) (fun n own => ?_) list fact accepted
    · simpa using List.any_eq_false.mp unseen n own
    · rcases List.mem_cons.mp (nodes n own) with rfl | own
      · exact uncovered
      · simpa using List.any_eq_false.mp bare n own
  | @further seen child current parent inside rest ih =>
    have further : (seen || (v.wrapping child).row || (m.tree.statementList? current).isSome) =
        m.passedRow v (current :: passed) (child :: behind) := by
      rw [passedOn, ← same]
    refine ih (.step way parent inside) further ?_
    · intro n own
      rcases List.mem_cons.mp own with rfl | own
      · exact List.mem_cons_of_mem _ (nodes n List.mem_cons_self)
      · rcases List.mem_cons.mp own with rfl | own
        · exact List.mem_cons_self
        · exact List.mem_cons_of_mem _ (nodes n (List.mem_cons_of_mem _ own))

theorem waysDown (v : Move) (m' : ConditionMatcher) {site : NodeId} {passed : List NodeId}
    (way : m.tree.Ascends site passed child) :
    ∃ behind, (∀ n ∈ child :: behind, n ∈ site :: passed) ∧
      (m.Stays v m' (m.passedRow v passed behind) child → m.Stays v m' false site) := by
  induction way with
  | start => exact ⟨[], fun n own => own, id⟩
  | @step passed child current before parent inside ih =>
    obtain ⟨behind, nodes, down⟩ := ih
    refine ⟨child :: behind, fun n own => ?_, fun stays => down (.further parent inside ?_)⟩
    · rcases List.mem_cons.mp own with rfl | own
      · simp
      · rcases List.mem_cons.mp (nodes n own) with rfl | own
        · simp
        · exact List.mem_cons_of_mem _ (List.mem_cons_of_mem _ own)
    · rwa [← passedOn]

theorem keepsStays {site : NodeId} (keeps : m.Keeps v m' site) : m.Stays v m' false site := by
  cases keeps with
  | branch way parent fact accepted =>
    obtain ⟨_, _, down⟩ := waysDown v m' way
    exact down (.branch parent ⟨_, fact, accepted⟩)
  | test way written affirmed =>
    obtain ⟨_, _, down⟩ := waysDown v m' way
    exact down (.test written affirmed)
  | @exit passed child current row gap f way parent first uncovered list fact accepted =>
    obtain ⟨behind, nodes, down⟩ := waysDown v m' way
    have unseen : m.passedRow v passed behind = false := by
      refine Bool.or_eq_false_iff.mpr ⟨List.any_eq_false.mpr fun n own => ?_,
        List.any_eq_false.mpr fun n own => ?_⟩
      · simp [first n own]
      · simp [uncovered n (nodes n (List.mem_cons_of_mem _ own))]
    refine down ?_
    rw [unseen]
    exact .exit parent (uncovered _ (nodes _ List.mem_cons_self)) list ⟨_, _, fact, accepted⟩

theorem keepsExact {site : NodeId} (follows : m.Follows v m') (inside : site < m.tree.size) :
    m'.Knows false (v.inner site) ↔ m.Keeps v m' site := by
  obtain ⟨n, depth, _⟩ := Tree.depthExists follows.old site
  rw [knowsStays follows depth inside]
  have start : false = m.passedRow v [] [] := rfl
  exact ⟨fun stays => staysKeeps stays .start start fun n own => own, keepsStays⟩

end ConditionMatcher
/-! ### Wrappers -/

namespace Tree
variable {t t' : Tree} {v : Move} {i : NodeId} {p : Payload} {wrappers : List String}

def bars (t : Tree) (i : NodeId) : Bool :=
  t.kindIs (fun k => k.isFunctionLike || k == .arrayLiteral) i

/- A call to one of the wrappers is around the node, below any function or list. -/
inductive Handed (t : Tree) (wrappers : List String) : NodeId → Prop where
  | here {child current s} (parent : t.parent? child = some current)
      (free : t.bars current = false) (site : t.callSite? current = some s)
      (named : wrappers.contains s.name = true) : Handed t wrappers child
  | further {child current} (parent : t.parent? child = some current)
      (free : t.bars current = false) (rest : Handed t wrappers current) : Handed t wrappers child

theorem handedTop (root : t.parent? i = none) : ¬ t.Handed wrappers i := by
  intro handed
  cases handed with
  | here parent _ _ _ => rw [root] at parent; cases parent
  | further parent _ _ => rw [root] at parent; cases parent

theorem handedStep {current : NodeId} (parent : t.parent? i = some current) :
    t.Handed wrappers i ↔ t.bars current = false ∧
      ((∃ s, t.callSite? current = some s ∧ wrappers.contains s.name = true) ∨
        t.Handed wrappers current) := by
  constructor
  · intro handed
    cases handed with
    | here parent' free site named =>
      cases parent.symm.trans parent'
      exact ⟨free, .inl ⟨_, site, named⟩⟩
    | further parent' free rest =>
      cases parent.symm.trans parent'
      exact ⟨free, .inr rest⟩
  · rintro ⟨free, ⟨s, site, named⟩ | rest⟩
    · exact .here parent free site named
    · exact .further parent free rest

theorem wrapperStep (current : NodeId) (above : List NodeId) :
    (t.wrapperAbove? wrappers (current :: above)).isSome = true ↔ t.bars current = false ∧
      ((∃ s, t.callSite? current = some s ∧ wrappers.contains s.name = true) ∨
        (t.wrapperAbove? wrappers above).isSome = true) := by
  have named : ((t.callSite? current).any fun call => wrappers.contains call.name) = true ↔
      ∃ s, t.callSite? current = some s ∧ wrappers.contains s.name = true := by
    cases t.callSite? current <;> simp
  rw [wrapperAbove?, ← named]
  unfold bars
  split
  · rename_i bars
    simp [bars]
  · rename_i free
    split
    · rename_i found
      exact ⟨fun _ => ⟨(Bool.not_eq_true _).mp free, .inl found⟩, fun _ => rfl⟩
    · rename_i other
      exact ⟨fun rest => ⟨(Bool.not_eq_true _).mp free, .inr rest⟩, fun rest => rest.2.resolve_left other⟩

theorem handedChain {n limit : Nat} (depth : t.Depth i n) (enough : n ≤ limit) :
    (t.wrapperAbove? wrappers (t.chain limit (t.parent? i))).isSome = true ↔
      t.Handed wrappers i := by
  induction depth generalizing limit with
  | top root =>
    have empty : t.chain limit none = [] := by cases limit <;> rfl
    rw [root, empty]
    exact ⟨nofun, fun handed => absurd handed (handedTop root)⟩
  | @under i current n parent above ih =>
    obtain ⟨limit, rfl⟩ := Nat.exists_eq_add_of_le' (Nat.lt_of_lt_of_le (Nat.succ_pos n) enough)
    rw [parent, handedStep parent, ← ih (Nat.le_of_succ_le_succ enough)]
    exact wrapperStep current _

theorem handedExact (forest : t.Forest) (shallow : t.Shallow) (i : NodeId) :
    (t.wrapperGuard? i wrappers).isSome = true ↔ t.Handed wrappers i := by
  obtain ⟨n, depth, _⟩ := depthExists forest i
  exact handedChain depth (shallow i n depth)

theorem heldFree (forest : t.Forest) (held : t.payloadAt? i = some p) (function : p.form ≠ .function)
    (elements : p.form ≠ .elements) : t.bars i = false := by
  obtain ⟨k, found, form⟩ := heldKind forest held
  rw [bars, kindIs, found]
  cases barred : (k.isFunctionLike || k == .arrayLiteral) with
  | false => exact barred
  | true =>
    cases k <;> cases barred
    all_goals first
      | exact absurd (Option.some.inj form).symm function
      | exact absurd (Option.some.inj form).symm elements

theorem handedUnder (forest : t.Forest) {current : NodeId} (held : t.payloadAt? current = some p)
    (own : some i ∈ p.slots) (function : p.form ≠ .function) (elements : p.form ≠ .elements)
    (handed : t.Handed wrappers current) : t.Handed wrappers i :=
  .further (heldParent forest held own) (heldFree forest held function elements) handed

theorem handedOuter (w : t.Wrapped t' v) (new : t'.Forest) (inside : i < t.size)
    (handed : t'.Handed wrappers (v.outer i)) : t'.Handed wrappers (v.inner i) := by
  have through {test : Slot} {choice : NodeId} (chooses : t'.Chooses test (v.inner i) choice)
      (handed : t'.Handed wrappers choice) : t'.Handed wrappers (v.inner i) := by
    obtain ⟨held, body, alone⟩ := chooses
    exact handedUnder new body (by simp [Payload.slots, alone]) nofun nofun
      (handedUnder new held (by simp [Payload.slots]) nofun nofun handed)
  have shape := w.wraps i inside
  unfold Move.outer at handed
  generalize v.wrapping i = x at shape handed
  cases shape with
  | bare => exact handed
  | statement _ choice => exact through choice handed
  | braced _ held only choice =>
    exact through choice (handedUnder new held (by simp [Payload.slots, only]) nofun nofun handed)
  | body _ _ _ choice => exact handedUnder new choice (by simp [Payload.slots]) nofun nofun handed
  | leaf _ _ _ held args alone =>
    exact handedUnder new held (by simp [Payload.slots, args, alone]) nofun nofun handed
  | parens enclosed => exact handedUnder new enclosed.held (by simp [Payload.slots]) nofun nofun handed

/- No fix comes between a node and the wrappers around it. -/
theorem handedMoved (w : t.Wrapped t' v) (old : t.Forest) (new : t'.Forest) (shallow : t.Shallow)
    (shallow' : t'.Shallow) (inside : i < t.size) (handed : t.Handed wrappers i) :
    t'.Handed wrappers (v.inner i) := by
  have known {j current : NodeId} (parent : t.parent? j = some current) :
      j < t.size ∧ current < t.size := by
    obtain ⟨p, held, own⟩ := parentHeld old parent
    exact ⟨Nat.lt_trans (heldOlder old held own) (heldInside held), heldInside held⟩
  induction handed with
  | here parent free site named =>
    obtain ⟨inside, above⟩ := known parent
    refine handedOuter w new inside (.here (movedParent w old new parent) ?_ (s := v.site _) ?_ named)
    · rw [bars, kindIsMoved w above]
      exact free
    · rw [siteMoved w old new shallow shallow' above, site]
      rfl
  | further parent free _ ih =>
    obtain ⟨inside, above⟩ := known parent
    refine handedOuter w new inside (.further (movedParent w old new parent) ?_ (ih above))
    rw [bars, kindIsMoved w above]
    exact free

end Tree
/-! ### Calls -/

namespace Tree
variable {t t' : Tree} {v : Move} {i : NodeId} {s : CallSite} {r : Subject}
  {predicates : List Predicate} {m : ConditionMatcher}

theorem siteHolds (forest : t.Forest) (site : t.callSite? i = some s) : t.Holds s.subject := by
  have receiver : t.Inside s.receiver := by
    obtain ⟨c, _, site⟩ := Option.bind_eq_some_iff.mp site
    dsimp only at site
    split at site
    · obtain ⟨a, accessed, site⟩ := Option.bind_eq_some_iff.mp site
      obtain ⟨name, _, site⟩ := Option.bind_eq_some_iff.mp site
      cases site
      dsimp only
      split
      · exact nofun
      · exact (accessInside forest (accessHeld accessed)).1
    · obtain ⟨name, _, site⟩ := Option.bind_eq_some_iff.mp site
      cases site
      exact nofun
  obtain ⟨node, name, receiver'⟩ := s
  cases receiver' with
  | none => trivial
  | some r => exact receiver

theorem subjectSite (v : Move) (s : CallSite) : (v.site s).subject = v.subject s.subject := by
  obtain ⟨node, name, receiver⟩ := s
  cases receiver <;> rfl

theorem ascendsPart {site child n : NodeId} {passed : List NodeId} (way : t.Ascends site passed child)
    (own : n ∈ site :: passed) : ∃ part, t.Ascends site part n := by
  induction way with
  | start =>
    cases List.mem_singleton.mp own
    exact ⟨[], .start⟩
  | step before parent inside ih =>
    rcases List.mem_cons.mp own with rfl | own
    · exact ⟨[], .start⟩
    · rcases List.mem_cons.mp own with rfl | own
      · exact ⟨_, .step before parent inside⟩
      · exact ih (List.mem_cons_of_mem _ own)

theorem followsMoved (w : t.Wrapped t' v) (old : t.Forest) (new : t'.Forest) (shallow : t.Shallow)
    (shallow' : t'.Shallow) (holds : t.Holds r) (legible : t.Legible t' v r)
    (apart : ∀ p ∈ predicates, p.name ∉ v.leaves)
    (matcher : t.matcher? r predicates = some m) :
    ∃ m', t'.matcher? (v.subject r) predicates = some m' ∧ m.Follows v m' := by
  obtain ⟨key, found, rfl⟩ := Option.map_eq_some_iff.mp matcher
  obtain ⟨key', found', keys⟩ := subjectMoved w old new shallow shallow' holds legible found
  exact ⟨⟨t', key', predicates⟩, by rw [matcher?, found']; rfl, w, old, new, shallow, shallow', rfl, keys,
    apart⟩

end Tree

namespace Program

theorem guardKnown (fileName : String) (text : List Char) (site : NodeId) {subject : Subject}
    {predicates : List Predicate} {m : ConditionMatcher} :
    let p := parse fileName text
    p.tree.Shallow → p.tree.matcher? subject predicates = some m →
      ((p.tree.conditionGuard? p.root site subject predicates).isSome = true ↔
        m.Knows false site) := by
  intro p shallow matcher
  have silence := guardSilence fileName text site shallow matcher
  obtain ⟨key, _, rfl⟩ := Option.map_eq_some_iff.mp matcher
  rw [← Option.ne_none_iff_isSome, ne_eq, silence]
  constructor
  · intro loud
    by_contra unknown
    exact loud fun level gap f controls accepted =>
      unknown ⟨level, gap, f, Tree.aheadExact.mpr controls, accepted⟩
  · rintro ⟨level, gap, f, ahead, accepted⟩ silent
    exact silent level gap f (Tree.aheadExact.mp ahead) accepted

/- What the new tree keeps of what protected a call in the old one. A call that loses its guard was
protected by earlier statements alone, and a statement around it was put into a new row. -/
theorem fixedGuards (fileName fileName' : String) (text text' : List Char) (v : Move) {i : NodeId}
    {s : CallSite} :
    let p := parse fileName text
    let p' := parse fileName' text'
    p.tree.Wrapped p'.tree v → p.tree.Shallow → p'.tree.Shallow → p.tree.callSite? i = some s →
      p'.tree.callSite? (v.inner i) = some (v.site s) ∧
      (∀ wrappers preferred, (p.tree.guard? p.root s (.wrapper wrappers preferred)).isSome = true →
        (p'.tree.guard? p'.root (v.site s) (.wrapper wrappers preferred)).isSome = true) ∧
      ∀ predicates m, (∀ x ∈ predicates, x.name ∉ v.leaves) → p.tree.Legible p'.tree v s.subject →
        p.tree.matcher? s.subject predicates = some m →
        ∃ m', p'.tree.matcher? (v.site s).subject predicates = some m' ∧
          ((p'.tree.guard? p'.root (v.site s) (.condition predicates)).isSome = true ↔
            m.Keeps v m' i) ∧
          ((∀ passed n, p.tree.Ascends i passed n → (v.wrapping n).row = false) →
            (p.tree.guard? p.root s (.condition predicates)).isSome = true →
            (p'.tree.guard? p'.root (v.site s) (.condition predicates)).isSome = true) := by
  intro p p' wrapped shallow shallow' site
  have old : p.tree.Forest := treeForest fileName text
  have new : p'.tree.Forest := treeForest fileName' text'
  have inside : i < p.tree.size := by
    obtain ⟨c, called, _⟩ := Option.bind_eq_some_iff.mp site
    exact Tree.heldInside (Tree.callHeld called)
  cases Tree.siteNode site
  refine ⟨?_, fun wrappers preferred guarded => ?_, fun predicates m apart legible matcher => ?_⟩
  · rw [Tree.siteMoved wrapped old new shallow shallow' inside, site]
    rfl
  · have handed := (Tree.handedExact old shallow s.node).mp guarded
    exact (Tree.handedExact new shallow' _).mpr (Tree.handedMoved wrapped old new shallow shallow' inside handed)
  · obtain ⟨m', matcher', follows⟩ :=
      Tree.followsMoved wrapped old new shallow shallow' (Tree.siteHolds old site) legible apart matcher
    rw [← Tree.subjectSite] at matcher'
    have known := guardKnown fileName text s.node shallow matcher
    have known' := guardKnown fileName' text' (v.inner s.node) shallow' matcher'
    obtain ⟨key, _, rfl⟩ := Option.map_eq_some_iff.mp matcher
    have keeps := ConditionMatcher.keepsExact follows inside
    refine ⟨m', matcher', known'.trans keeps, fun uncovered guarded => ?_⟩
    obtain ⟨level, gap, f, ahead, accepted⟩ := known.mp guarded
    refine (known'.trans keeps).mpr ?_
    cases Tree.aheadExact.mp ahead with
    | branch way parent fact => exact .branch way parent fact accepted
    | exit way parent first list fact =>
      refine .exit way parent first (fun n own => ?_) list fact accepted
      obtain ⟨passed, part⟩ := Tree.ascendsPart way own
      exact uncovered passed n part

/- Before, the inner call of `a` runs only when `b` is known; the fix for the outer call hides that. -/
def hiddenText : List Char := "if(b.off)throw 0;a.add(b.add());".toList

def hiddenFixed : List Char := "if(b.off)throw 0;if (!a.off) \x7b a.add(b.add()); \x7d".toList

def hiddenMove : Move where
  inner i := if i < 6 then i else if i < 15 then i + 4 else i + 6
  wrapping i :=
    if i = 14 then ⟨20, some (some 9), true⟩
    else ⟨if i < 6 then i else if i < 15 then i + 4 else i + 6, none, false⟩
  leaves := []

theorem hiddenFacts :
    let p := parse "f" hiddenText
    let p' := parse "f" hiddenFixed
    let t := p.tree
    let t' := p'.tree
    let s : CallSite := ⟨12, "add", some 9⟩
    let spec : GuardSpec := .condition [⟨"off", false⟩]
    t.size = 16 ∧ t'.size = 22 ∧
      (∀ i < 16, t'.kind? (hiddenMove.inner i) = t.kind? i) ∧
      (∀ i < 16, (t'.payloadAt? (hiddenMove.inner i)).map (Payload.moved id) =
        (t.payloadAt? i).map (Payload.moved hiddenMove.outer)) ∧
      (∀ i < 16, t.parent? i = none → t'.parent? (hiddenMove.outer i) = none) ∧
      t.kind? 14 = some .expressionStatement ∧
      t'.branch? (some 20) = some ⟨some 9, some 19, none⟩ ∧
      (t'.block? (some 19)).map (·.items) = some [some 18] ∧
      t.callSite? 12 = some s ∧ (t.matcher? s.subject [⟨"off", false⟩]).isSome = true ∧
      t.reference? s.receiver = some ["b"] ∧
      (t.guard? p.root s spec).isSome = true ∧
      t'.guard? p'.root (hiddenMove.site s) spec = none := by
  decide +kernel

theorem hiddenWrapped :
    (parse "f" hiddenText).tree.Wrapped (parse "f" hiddenFixed).tree hiddenMove := by
  obtain ⟨size, _, kind, payload, top, statement, choice, block, _⟩ := hiddenFacts
  generalize (parse "f" hiddenText).tree = t at *
  generalize (parse "f" hiddenFixed).tree = t' at *
  rw [← size] at kind payload top
  refine ⟨kind, payload, fun i _ => ?_, top⟩
  by_cases written : i = 14
  · subst written
    obtain ⟨l, held, alone⟩ := Option.map_eq_some_iff.mp block
    exact .statement statement (.intro (Tree.branchHeld choice) (Tree.blockHeld held) alone)
  · rw [show hiddenMove.wrapping i = ⟨hiddenMove.inner i, none, false⟩ from if_neg written]
    exact .bare

theorem hiddenGuard :
    let p := parse "f" hiddenText
    let p' := parse "f" hiddenFixed
    let s : CallSite := ⟨12, "add", some 9⟩
    let spec : GuardSpec := .condition [⟨"off", false⟩]
    (p.tree.guard? p.root s spec).isSome = true ∧
      p'.tree.guard? p'.root (hiddenMove.site s) spec = none ∧
        ∃ m m', p.tree.matcher? s.subject [⟨"off", false⟩] = some m ∧
          ¬ m.Keeps hiddenMove m' 12 := by
  intro p p' s spec
  obtain ⟨size, size', _, _, _, _, _, _, site, matcher, reference, before, after⟩ := hiddenFacts
  obtain ⟨m, matcher⟩ := Option.isSome_iff_exists.mp matcher
  have shallow : p.tree.Shallow := Tree.smallShallow (treeForest _ _) (by rw [size]; decide)
  have shallow' : p'.tree.Shallow := Tree.smallShallow (treeForest _ _) (by rw [size']; decide)
  have legible : p.tree.Legible p'.tree hiddenMove s.subject := by
    intro unnamed
    rw [reference] at unnamed
    cases unnamed
  obtain ⟨_, _, moved⟩ := fixedGuards _ _ _ _ hiddenMove hiddenWrapped shallow shallow' site
  obtain ⟨m', _, keeps, _⟩ := moved _ m (by simp [hiddenMove]) legible matcher
  refine ⟨before, after, m, m', matcher, fun kept => ?_⟩
  have found := keeps.mpr kept
  rw [after] at found
  cases found

end Program
end CallGuard
