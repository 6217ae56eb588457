import CallGuard.Analysis.Evaluate
import CallGuard.Proofs.Fix.Guards
import CallGuard.Proofs.Rule.Evaluation

/-! Parentheses around expressions. They change neither what a call is named and called on nor what
protects it, as long as subjects that are known by their texts alone are still told apart. They can
change what a rule is about: a callback in parentheses is no argument of the call any more. -/
namespace CallGuard

namespace Tree

/- Parentheses were put around some of the nodes, and nothing else was done. -/
structure Encloses (t t' : Tree) (v : Move) : Prop where
  wrapped : t.Wrapped t' v
  untested : ∀ i, (v.wrapping i).test? = none
  rowless : ∀ i, (v.wrapping i).row = false
  leafless : v.leaves = []

variable {t t' : Tree} {v : Move} {i p : NodeId} {s : Slot} {wrappers containers : List String}
  {slot : String}

theorem enclosesOnly (e : t.Encloses t' v) (inside : i < t.size) :
    v.outer i = v.inner i ∨ t.Enclosed t' v i (v.outer i) := by
  have shape := e.wrapped.wraps i inside
  have untested := e.untested i
  unfold Move.outer
  generalize v.wrapping i = x at shape untested ⊢
  cases shape with
  | bare => exact .inl rfl
  | parens enclosed => exact .inr enclosed
  | leaf _ named _ _ _ _ => rw [e.leafless] at named; cases named
  | statement _ _ | braced _ _ _ _ | body _ _ _ _ => cases untested

theorem enclosedParent (new : t'.Forest) (enclosed : t.Enclosed t' v i (v.outer i)) :
    t'.parent? (v.inner i) = some (v.outer i) ∧ v.outer i ≠ v.inner i :=
  ⟨heldParent new enclosed.held List.mem_cons_self,
    Nat.ne_of_gt (heldOlder new enclosed.held List.mem_cons_self)⟩

theorem parenthesizedHeld {held : Slot} (h : t.parenthesized? s = some held) :
    t.payload? s = some (.parenthesized held) := by
  unfold parenthesized? at h
  split at h <;> cases h
  assumption

theorem enclosedCall (enclosed : t.Enclosed t' v i (v.outer i)) : t'.call? (some (v.outer i)) = none := by
  simp [call?, payload?, enclosed.held]

theorem keyNames {names : List String} (found : t.reference? s = some names) :
    t.subjectKey? s = some (.reference names) := by
  unfold subjectKey?
  rw [found]

theorem keyText (found : t.reference? s = none) :
    t.subjectKey? s = (t.bareText? s).map .text := by
  unfold subjectKey?
  rw [found]

/- A pair of parentheses around one node. Nodes are numbered from the inside out, so it comes next. -/
def parensAround (e : NodeId) : Move where
  inner i := if i ≤ e then i else i + 1
  wrapping i := ⟨if i < e then i else i + 1, none, false⟩
  leaves := []

theorem aroundOthers {e j : NodeId} (other : j ≠ e) :
    (parensAround e).wrapping j = ⟨(parensAround e).inner j, none, false⟩ := by
  have close : j < e ↔ j ≤ e := ⟨Nat.le_of_lt, fun low => Nat.lt_of_le_of_ne low other⟩
  simp only [parensAround, close]

theorem aroundEncloses {e : NodeId} (wrapped : t.Wrapped t' (parensAround e)) :
    t.Encloses t' (parensAround e) := ⟨wrapped, fun _ => rfl, fun _ => rfl, rfl⟩

/-! ### Guards -/

section
variable (e : t.Encloses t' v) (old : t.Forest) (new : t'.Forest)
include e new

theorem handedOut (inside : i < t.size) (handed : t'.Handed wrappers (v.inner i)) :
    t'.Handed wrappers (v.outer i) := by
  rcases enclosesOnly e inside with bare | enclosed
  · rw [bare]
    exact handed
  · rcases ((handedStep (enclosedParent new enclosed).1).mp handed).2 with ⟨s, site, _⟩ | further
    · simp [callSite?, enclosedCall enclosed] at site
    · exact further

variable (shallow : t.Shallow) (shallow' : t'.Shallow)
include old shallow shallow'

theorem handedExactly (inside : i < t.size) :
    t'.Handed wrappers (v.inner i) ↔ t.Handed wrappers i := by
  refine ⟨fun handed => ?_, handedMoved e.wrapped old new shallow shallow' inside⟩
  obtain ⟨n, depth, -⟩ := depthExists old i
  induction depth with
  | top root => exact absurd (handedOut e new inside handed) (handedTop (e.wrapped.top _ inside root))
  | @under i p n parent _ ih =>
    obtain ⟨held, own, _⟩ := parentHeld old parent
    have above : p < t.size := heldInside own
    have parent' := movedParent e.wrapped old new parent
    obtain ⟨free, rest⟩ := (handedStep parent').mp (handedOut e new inside handed)
    refine (handedStep parent).mpr ⟨?_, rest.imp ?_ (ih above)⟩
    · rwa [bars, kindIsMoved e.wrapped above] at free
    · rintro ⟨s', site, named⟩
      rw [siteMoved e.wrapped old new shallow shallow' above] at site
      obtain ⟨s, own, rfl⟩ := Option.map_eq_some_iff.mp site
      exact ⟨s, own, named⟩

theorem keyAbsent {r : Subject} (holds : t.Holds r) (legible : t.Legible t' v r)
    (absent : t.keyOf? r = none) : t'.keyOf? (v.subject r) = none := by
  cases r with
  | implicitThis => cases absent
  | expr s =>
    have same : t'.reference? (v.slot s) = t.reference? s := by
      rw [reference?, referenceMoved e.wrapped old new shallow shallow' _ holds, reference?]
    cases found : t.reference? s with
    | some names => cases (keyNames found).symm.trans absent
    | none =>
      have text := (keyText found).symm.trans absent
      refine (keyText (same.trans found)).trans (Option.map_eq_none_iff.mpr ?_)
      exact ((legible found none nofun).mpr (Option.map_eq_none_iff.mp text).symm).symm

/-! ### Places -/

theorem thisMoved (inside : t.Inside s) : t'.isThis (v.slot s) = t.isThis s := by
  have shows := (skipShows e.wrapped old new shallow shallow' inside).1
  have word (t : Tree) (s : Slot) : t.isKind s (.token (.word .thisWord)) =
      (t.kind? =<< s).any (· == .token (.word .thisWord)) := by
    cases s with
    | none => rfl
    | some i => exact isKindAt _ i
  rw [isThis, isThis, word, word]
  rcases kindShown e.wrapped shows with same | ⟨other, other'⟩
  · rw [same]
  · cases found : t.kind? =<< t.skipParens s <;>
      cases found' : t'.kind? =<< t'.skipParens (v.slot s) <;> simp_all

omit shallow shallow' in
theorem memberMoved {q : Payload} {row : List Slot} (parent : t.parent? i = some p)
    (held : t.payloadAt? p = some q) (part : ∀ s ∈ row, s ∈ q.slots) :
    (row.map v.slot).contains (some (v.outer i)) = row.contains (some i) := by
  rw [Bool.eq_iff_iff, List.contains_iff_mem, List.contains_iff_mem, List.mem_map]
  constructor
  · rintro ⟨s, own, same⟩
    rwa [(childMoved e.wrapped old new parent held (part s own)).mp same] at own
  · intro own
    exact ⟨_, own, rfl⟩

theorem argumentMoved (inside : i < t.size) (bare : v.outer i = v.inner i) :
    t'.callTakingArgument? (v.inner i) = (t.callTakingArgument? i).map v.site := by
  unfold callTakingArgument?
  cases parent : t.parent? i with
  | none =>
    rw [← bare, e.wrapped.top i inside parent]
    rfl
  | some p =>
    obtain ⟨q, held, own⟩ := parentHeld old parent
    have above : p < t.size := heldInside held
    rw [← bare, movedParent e.wrapped old new parent]
    simp only [Option.bind_eq_bind, Option.bind_some]
    cases called : t.call? (some p) with
    | none => rw [callAbsent e.wrapped above called]; rfl
    | some c =>
      obtain ⟨d, held', _, args⟩ := callMoved e.wrapped old new shallow shallow' (callHeld called)
      have called' : t'.call? (some (v.inner p)) = some d := by simp [call?, payload?, held']
      cases own : c.args with
      | none =>
        have own' : d.args = none := by simpa [own] using args
        rw [called']
        simp only [Option.bind_some, own', own, Option.bind_none, Option.map_none]
      | some l =>
        obtain ⟨m, own', items⟩ : ∃ m, d.args = some m ∧ m.items = l.items.map v.slot := by
          simpa [own] using args
        have part : ∀ s ∈ l.items, s ∈ (Payload.call c).slots := by
          intro s listed
          simp [Payload.slots, own, listed]
        rw [called']
        have listed := memberMoved e old new parent (callHeld called) part
        simp only [Option.bind_some, own', own, items, listed]
        split
        · exact siteMoved e.wrapped old new shallow shallow' above
        · rfl

/- A callback in parentheses is none. -/
theorem continuationExactly (inside : i < t.size) :
    t'.isContinuation (v.inner i) = true ↔ t.isContinuation i = true ∧ v.outer i = v.inner i := by
  rw [isContinuation, isContinuation, kindIsMoved e.wrapped inside]
  rcases enclosesOnly e inside with bare | enclosed
  · rw [argumentMoved e old new shallow shallow' inside bare, Option.any_map]
    exact ⟨fun late => ⟨late, bare⟩, fun late => late.1⟩
  · obtain ⟨parent, apart⟩ := enclosedParent new enclosed
    have none' : t'.callTakingArgument? (v.inner i) = none := by
      simp [callTakingArgument?, parent, enclosedCall enclosed]
    simp [none', apart]

end
end Tree

namespace Analysis
variable {t t' : Tree} {v : Move} {i p : NodeId} {containers : List String} {slot : String}

/- The container of a list that is the slot's value in an argument. -/
def listContainer? (t : Tree) (containers : List String) (slot : String) (list : NodeId) : Option NodeId := do
  let holder ← t.parent? list
  let property ← if t.kindIs (· == .propertyAssignment) holder then t.property? (some holder) else none
  if property.init == some list && t.identifier? property.name == some slot then
    let container ← t.callTakingArgument? (← t.parent? holder)
    if containers.contains container.name then some container.node else none
  else none

theorem containerStep (t : Tree) (containers : List String) (slot : String) (current : NodeId)
    (above : List NodeId) : containerAbove? t containers slot (current :: above) =
      if t.kindIs NodeKind.isFunctionLike current then none
      else if t.kindIs (· == .arrayLiteral) current then listContainer? t containers slot current
      else containerAbove? t containers slot above := rfl

/- Parentheses keep away from lists, from properties and their names, and from objects. -/
structure Uncovered (t : Tree) (v : Move) : Prop where
  list : ∀ j, t.kindIs (· == .arrayLiteral) j = true → v.outer j = v.inner j
  property : ∀ j, t.kindIs (· == .propertyAssignment) j = true → v.outer j = v.inner j
  name : ∀ j q, t.payloadAt? j = some (.property q) → ∀ k ∈ q.name, v.outer k = v.inner k
  object : ∀ j o, t.kindIs (· == .propertyAssignment) j = true → t.parent? j = some o →
    v.outer o = v.inner o

theorem aroundUncovered {e : NodeId} (list : t.kindIs (· == .arrayLiteral) e = false)
    (property : t.kindIs (· == .propertyAssignment) e = false)
    (name : ∀ j q, t.payloadAt? j = some (.property q) → q.name ≠ some e)
    (object : ∀ j, t.kindIs (· == .propertyAssignment) j = true → t.parent? j ≠ some e) :
    Uncovered t (Tree.parensAround e) := by
  have apart {j : NodeId} (other : j ≠ e) : (Tree.parensAround e).outer j = (Tree.parensAround e).inner j :=
    congrArg Wrapping.outer (Tree.aroundOthers other)
  refine ⟨fun j kind => apart ?_, fun j kind => apart ?_, fun j q held k own => apart ?_,
    fun j o kind parent => apart ?_⟩
  · rintro rfl
    rw [list] at kind
    cases kind
  · rintro rfl
    rw [property] at kind
    cases kind
  · rintro rfl
    exact name j q held own
  · rintro rfl
    exact object j kind parent

section
variable (e : t.Encloses t' v) (old : t.Forest) (new : t'.Forest) (shallow : t.Shallow)
  (shallow' : t'.Shallow)
include e

theorem propertyMoved (inside : i < t.size) : t'.property? (some (v.inner i)) =
    (t.property? (some i)).map fun q => ⟨v.slot q.name, v.slot q.init⟩ := by
  unfold Tree.property? Tree.payload?
  simp only [Option.bind_some]
  cases held : t.payloadAt? i with
  | none => rw [Tree.movedAbsent e.wrapped inside held]; rfl
  | some p =>
    have same := e.wrapped.payload i inside
    rw [held] at same
    obtain ⟨q, held', same⟩ := Option.map_eq_some_iff.mp same
    have form : q.form = p.form := by rw [← movedForm id q, same, movedForm]
    rw [held']
    cases p with
    | property x =>
      cases q with
      | property y =>
        simp only [Payload.moved, Option.map_id, id_eq, Payload.property.injEq] at same
        exact congrArg some same
      | _ => cases form
    | _ =>
      split
      · rename_i own
        cases own
        cases form
      · rfl

include old new shallow shallow'

theorem listedMoved (away : Uncovered t v) (inside : i < t.size)
    (list : t.kindIs (· == .arrayLiteral) i = true) :
    listContainer? t' containers slot (v.inner i) = (listContainer? t containers slot i).map v.inner := by
  unfold listContainer?
  rw [← away.list i list]
  cases parent : t.parent? i with
  | none =>
    rw [e.wrapped.top i inside parent]
    rfl
  | some h =>
    obtain ⟨q, held, own⟩ := Tree.parentHeld old parent
    have above : h < t.size := Tree.heldInside held
    rw [Tree.movedParent e.wrapped old new parent]
    simp only [Option.bind_eq_bind, Option.bind_some, Tree.kindIsMoved e.wrapped above,
      propertyMoved e above]
    split
    · rename_i property
      cases found : t.property? (some h) with
      | none => rfl
      | some x =>
        have held : t.payloadAt? h = some (.property x) := by
          unfold Tree.property? at found
          split at found <;> cases found
          assumption
        have init : (v.slot x.init == some (v.outer i)) = (x.init == some i) := by
          rw [Bool.eq_iff_iff, beq_iff_eq, beq_iff_eq]
          exact Tree.childMoved e.wrapped old new parent held (by simp [Payload.slots])
        have name : t'.identifier? (v.slot x.name) = t.identifier? x.name := by
          cases named : x.name with
          | none => rfl
          | some k =>
            have part : t.Inside (some k) :=
              Tree.slotInside (s := some h) old held (by simp [Payload.slots, named])
            show t'.identifier? (some (v.outer k)) = _
            rw [away.name h x held k named]
            exact Tree.nameShown e.wrapped (.bare (Tree.insideSize part))
        simp only [Option.map_some, Option.bind_some, init, name]
        split
        · rw [← away.property h property]
          cases outer : t.parent? h with
          | none =>
            rw [e.wrapped.top h above outer]
            rfl
          | some o =>
            obtain ⟨_, held, _⟩ := Tree.parentHeld old outer
            rw [Tree.movedParent e.wrapped old new outer]
            simp only [Option.bind_some, Tree.argumentMoved e old new shallow shallow' (Tree.heldInside held)
              (away.object h o property outer)]
            cases t.callTakingArgument? o with
            | none => rfl
            | some c =>
              simp only [Option.map_some, Option.bind_some, Move.site]
              split <;> rfl
        · rfl
    · rfl

omit old shallow shallow' in
variable (containers slot) in
/- The search passes over parentheses. -/
theorem outerChain {n limit : Nat} (inside : i < t.size) (depth : t'.Depth (v.inner i) n)
    (enough : n ≤ limit) : ∃ n limit', t'.Depth (v.outer i) n ∧ n ≤ limit' ∧
      containerAbove? t' containers slot (t'.chain limit (t'.parent? (v.inner i))) =
        containerAbove? t' containers slot (t'.chain limit' (t'.parent? (v.outer i))) := by
  rcases Tree.enclosesOnly e inside with bare | enclosed
  · rw [bare]
    exact ⟨n, limit, depth, enough, rfl⟩
  · have parent := (Tree.enclosedParent new enclosed).1
    have free : t'.bars (v.outer i) = false := Tree.heldFree new enclosed.held nofun nofun
    have still : t'.kindIs NodeKind.isFunctionLike (v.outer i) = false ∧
        t'.kindIs (· == .arrayLiteral) (v.outer i) = false := by
      unfold Tree.bars Tree.kindIs at free
      unfold Tree.kindIs
      cases found : t'.kind? (v.outer i) <;> simp_all
    cases depth with
    | top root => rw [root] at parent; cases parent
    | @under _ _ m parent' above =>
      cases parent.symm.trans parent'
      obtain ⟨limit, rfl⟩ := Nat.exists_eq_add_of_le' (Nat.lt_of_lt_of_le (Nat.succ_pos m) enough)
      refine ⟨m, limit, above, Nat.le_of_succ_le_succ enough, ?_⟩
      rw [parent]
      show containerAbove? t' containers slot (v.outer i :: _) = _
      rw [containerStep, still.1, still.2]
      rfl

theorem containerChain (away : Uncovered t v) {n limit m limit' : Nat} (inside : i < t.size)
    (depth : t.Depth i n) (enough : n ≤ limit) (depth' : t'.Depth (v.inner i) m) (enough' : m ≤ limit') :
    containerAbove? t' containers slot (t'.chain limit' (t'.parent? (v.inner i))) =
      (containerAbove? t containers slot (t.chain limit (t.parent? i))).map v.inner := by
  have empty (t : Tree) (limit : Nat) : t.chain limit none = [] := by cases limit <;> rfl
  induction depth generalizing limit m limit' with
  | top root =>
    obtain ⟨_, _, _, _, same⟩ := outerChain containers slot e new inside depth' enough'
    rw [same, e.wrapped.top _ inside root, root, empty, empty]
    rfl
  | @under i p n parent above ih =>
    obtain ⟨_, held, _⟩ := Tree.parentHeld old parent
    have size : p < t.size := Tree.heldInside held
    obtain ⟨m, limit', depth', enough', same⟩ :=
      outerChain containers slot e new inside depth' enough'
    have parent' := Tree.movedParent e.wrapped old new parent
    cases depth' with
    | top root => rw [root] at parent'; cases parent'
    | @under _ _ m found above' =>
      cases parent'.symm.trans found
      obtain ⟨limit, rfl⟩ := Nat.exists_eq_add_of_le' (Nat.lt_of_lt_of_le (Nat.succ_pos n) enough)
      obtain ⟨limit', rfl⟩ := Nat.exists_eq_add_of_le' (Nat.lt_of_lt_of_le (Nat.succ_pos m) enough')
      rw [same, parent', parent]
      show containerAbove? t' containers slot (v.inner p :: _) =
        (containerAbove? t containers slot (p :: _)).map v.inner
      rw [containerStep, containerStep, Tree.kindIsMoved e.wrapped size, Tree.kindIsMoved e.wrapped size]
      split
      · rfl
      · split
        · exact listedMoved e old new shallow shallow' away size ‹_›
        · exact ih size (Nat.le_of_succ_le_succ enough) above' (Nat.le_of_succ_le_succ enough')

theorem containerMoved (away : Uncovered t v) (inside : i < t.size) :
    containerSlot? t' (v.inner i) containers slot = (containerSlot? t i containers slot).map v.inner := by
  obtain ⟨n, depth, -⟩ := Tree.depthExists old i
  obtain ⟨m, depth', -⟩ := Tree.depthExists new (v.inner i)
  exact containerChain e old new shallow shallow' away inside depth (shallow i n depth) depth'
    (shallow' _ m depth')

theorem placeMoved (away : Uncovered t v) (inside : i < t.size) {place : Applicability}
    (still : place = .always ∨ ∃ containers slot, place = .containerSlot containers slot) :
    isApplicable t' (v.inner i) place = isApplicable t i place := by
  rcases still with rfl | ⟨containers, slot, rfl⟩
  · rfl
  · simp only [isApplicable, containerMoved e old new shallow shallow' away inside, Option.isSome_map]

end
end Analysis

theorem ConditionMatcher.keepsKnows {v : Move} {m m' : ConditionMatcher} {site : NodeId}
    (e : m.tree.Encloses m'.tree v) : m.Keeps v m' site ↔ m.Knows false site := by
  constructor
  · intro keeps
    cases keeps with
    | branch way parent fact accepted =>
      exact ⟨_, _, _, Tree.aheadExact.mpr (.branch way parent fact), accepted⟩
    | test _ written _ => rw [e.untested] at written; cases written
    | exit way parent first _ list fact accepted =>
      exact ⟨_, _, _, Tree.aheadExact.mpr (.exit way parent first list fact), accepted⟩
  · rintro ⟨level, gap, f, ahead, accepted⟩
    cases Tree.aheadExact.mp ahead with
    | branch way parent fact => exact .branch way parent fact accepted
    | exit way parent first list fact =>
      exact .exit way parent first (fun n _ => e.rowless n) list fact accepted

namespace Analysis
variable {a a' : Analysis} {v : Move} {i : NodeId} {rule : Rule} {site : CallSite}

/- Two files that differ by parentheses only, and a source of types that they do not disturb. -/
structure Follows (a a' : Analysis) (v : Move) (rule : Rule) (i : NodeId) : Prop where
  encloses : a.tree.Encloses a'.tree v
  old : a.tree.Forest
  new : a'.tree.Forest
  shallow : a.tree.Shallow
  shallow' : a'.tree.Shallow
  types : ∀ names s r, rule.matcher.receiver = .typed names → a.tree.callSite? i = some s →
    s.receiver = some r → a'.types (v.slot (some r)) = a.types (some r)
  place : isApplicable a'.tree (v.inner i) rule.matcher.applicability =
    isApplicable a.tree i rule.matcher.applicability

theorem receiverMoved (follows : a.Follows a' v rule i) (called : a.tree.callSite? i = some site) :
    a'.acceptsReceiver (v.site site) rule.matcher.receiver =
      a.acceptsReceiver site rule.matcher.receiver := by
  have types := follows.types
  have holds := Tree.siteHolds follows.old called
  obtain ⟨node, name, receiver⟩ := site
  cases asks : rule.matcher.receiver with
  | any => rfl
  | this =>
    cases receiver with
    | none => rfl
    | some r =>
      exact congrArg Except.ok
        (Tree.thisMoved follows.encloses follows.old follows.new follows.shallow follows.shallow' holds)
  | unqualified => cases receiver <;> rfl
  | typed names =>
    cases receiver with
    | none => rfl
    | some r =>
      show (a'.types (v.slot (some r)) >>= fun type? => pure (type?.any names.contains)) = _
      rw [types names _ r asks called rfl]
      rfl

theorem matchMoved (follows : a.Follows a' v rule i) (inside : i < a.tree.size) :
    a'.matchOperation? rule.matcher (v.inner i) =
      (a.matchOperation? rule.matcher i).map (Option.map v.site) := by
  unfold matchOperation?
  rw [Tree.siteMoved follows.encloses.wrapped follows.old follows.new follows.shallow follows.shallow' inside]
  cases called : a.tree.callSite? i with
  | none => rfl
  | some site =>
    have place := follows.place
    rw [← Tree.siteNode called] at place
    simp only [Option.map_some, receiverMoved follows called]
    rw [show (v.site site).name = site.name from rfl, show (v.site site).node = v.inner site.node from rfl,
      place]
    split
    · rfl
    · cases a.acceptsReceiver site rule.matcher.receiver with
      | error e => rfl
      | ok accepts =>
        cases accepts with
        | false => rfl
        | true =>
          cases isApplicable a.tree site.node rule.matcher.applicability <;>
            simp [bind, Except.bind, pure, Except.pure, Except.map]

end Analysis

namespace Program
open CallGuard.Tree

/- What protects a call is found in the new tree exactly when it is found in the old one. -/
theorem guardsEnclosed (fileName fileName' : String) (text text' : List Char) (v : Move) {i : NodeId}
    {s : CallSite} :
    let p := parse fileName text
    let p' := parse fileName' text'
    p.tree.Encloses p'.tree v → p.tree.Shallow → p'.tree.Shallow → p.tree.callSite? i = some s →
      ∀ spec, (∀ predicates, spec = .condition predicates → p.tree.Legible p'.tree v s.subject) →
        (p'.tree.guard? p'.root (v.site s) spec).isSome = (p.tree.guard? p.root s spec).isSome := by
  intro p p' e shallow shallow' site spec legible
  have old : p.tree.Forest := treeForest fileName text
  have new : p'.tree.Forest := treeForest fileName' text'
  have inside : i < p.tree.size := by
    obtain ⟨c, called, _⟩ := Option.bind_eq_some_iff.mp site
    exact heldInside (callHeld called)
  cases siteNode site
  cases spec with
  | wrapper wrappers preferred =>
    rw [Bool.eq_iff_iff]
    exact (handedExact new shallow' _).trans
      ((handedExactly e old new shallow shallow' inside).trans (handedExact old shallow _).symm)
  | condition predicates =>
    have legible := legible predicates rfl
    have holds := siteHolds old site
    cases matcher : p.tree.matcher? s.subject predicates with
    | none =>
      have absent := keyAbsent e old new shallow shallow' holds legible (Option.map_eq_none_iff.mp matcher)
      have matcher' : p'.tree.matcher? (v.site s).subject predicates = none := by
        rw [subjectSite, matcher?, absent]
        rfl
      simp [guard?, conditionGuard?, matcher, matcher']
    | some m =>
      have apart : ∀ x ∈ predicates, x.name ∉ v.leaves := by simp [e.leafless]
      obtain ⟨_, _, moved⟩ := fixedGuards _ _ text text' v e.wrapped shallow shallow' site
      obtain ⟨m', matcher', keeps, _⟩ := moved predicates m apart legible matcher
      obtain ⟨key, _, same⟩ := Option.map_eq_some_iff.mp matcher
      obtain ⟨key', _, same'⟩ := Option.map_eq_some_iff.mp matcher'
      have encloses : m.tree.Encloses m'.tree v := by rw [← same, ← same']; exact e
      rw [Bool.eq_iff_iff]
      exact keeps.trans ((ConditionMatcher.keepsKnows encloses).trans
        (guardKnown fileName text s.node shallow matcher).symm)

/- What a rule says of a call depends on parentheses only where types or suspensions do. -/
theorem saidEnclosed (fileName fileName' : String) (text text' : List Char) (types types' : TypeOracle)
    (v : Move) (rule : Rule) (i : NodeId) :
    let p := parse fileName text
    let p' := parse fileName' text'
    let a : Analysis := ⟨p.tree, p.root, fileName, types⟩
    let a' : Analysis := ⟨p'.tree, p'.root, fileName', types'⟩
    i < p.tree.size → a.Follows a' v rule i →
      (∀ s predicates, p.tree.callSite? i = some s → rule.guard = .condition predicates →
        p.tree.Legible p'.tree v s.subject) →
      (a'.said rule (v.inner i)).isSome = (a.said rule i).isSome := by
  intro p p' a a' inside follows legible
  have about' := Analysis.matchMoved follows inside
  by_cases about : ∃ s, a.matchOperation? rule.matcher i = .ok (some s)
  · obtain ⟨s, about⟩ := about
    rw [about] at about'
    have site := Analysis.matchSite about
    have guards := guardsEnclosed fileName fileName' text text' v follows.encloses follows.shallow
      follows.shallow' site rule.guard fun predicates asks => legible s predicates site asks
    have there : (p'.tree.get? (v.inner i)).isSome = (p.tree.get? i).isSome := by
      have kinds := congrArg Option.isSome (follows.encloses.wrapped.kind i inside)
      rwa [kind?, kind?, Option.isSome_map, Option.isSome_map] at kinds
    rw [Analysis.saidAbout about, Analysis.saidAbout about', guards]
    split
    · rfl
    · rw [Option.isSome_map, Option.isSome_map, there]
  · rw [Analysis.saidNothing fun s own => about ⟨s, own⟩, Analysis.saidNothing fun s own => ?_]
    rw [about'] at own
    cases answer : a.matchOperation? rule.matcher i with
    | error e => rw [answer] at own; cases own
    | ok site? =>
      cases site? with
      | none => rw [answer] at own; cases own
      | some site => exact about ⟨site, answer⟩

/- Rules that look for no types and for no suspensions say the same of a call, as long as no list and
no object is put into parentheses. -/
theorem placesEnclosed (fileName fileName' : String) (text text' : List Char) (types types' : TypeOracle)
    (v : Move) (rule : Rule) (i : NodeId) :
    let p := parse fileName text
    let p' := parse fileName' text'
    let a : Analysis := ⟨p.tree, p.root, fileName, types⟩
    let a' : Analysis := ⟨p'.tree, p'.root, fileName', types'⟩
    (∀ names, rule.matcher.receiver ≠ .typed names) →
      (rule.matcher.applicability = .always ∨
        ∃ containers slot, rule.matcher.applicability = .containerSlot containers slot) →
      p.tree.Encloses p'.tree v → p.tree.Shallow → p'.tree.Shallow → Analysis.Uncovered p.tree v →
      i < p.tree.size →
      (∀ s predicates, p.tree.callSite? i = some s → rule.guard = .condition predicates →
        p.tree.Legible p'.tree v s.subject) →
      (a'.said rule (v.inner i)).isSome = (a.said rule i).isSome := by
  intro p p' a a' untyped still e shallow shallow' away inside legible
  have old : p.tree.Forest := treeForest fileName text
  have new : p'.tree.Forest := treeForest fileName' text'
  exact saidEnclosed fileName fileName' text text' types types' v rule i inside
    ⟨e, old, new, shallow, shallow', fun names s r asks => absurd asks (untyped names),
      Analysis.placeMoved e old new shallow shallow' away inside still⟩ legible

/- A text in a row, and the same text in parentheses. -/
def rowText : List Char := "Row({children:[Text(1)]});".toList

def rowParens : List Char := "Row({children:[(Text(1))]});".toList

theorem rowFacts :
    let t := (parse "f" rowText).tree
    let t' := (parse "f" rowParens).tree
    let v := parensAround 4
    t.size = 11 ∧ t'.size = 12 ∧ (∀ i < 11, t'.kind? (v.inner i) = t.kind? i) ∧
      (∀ i < 11, (t'.payloadAt? (v.inner i)).map (Payload.moved id) =
        (t.payloadAt? i).map (Payload.moved v.outer)) ∧
      (∀ i < 11, t.parent? i = none → t'.parent? (v.outer i) = none) ∧
      t.kindIs NodeKind.isStatement 4 = false ∧
      (∀ k < 11, ∀ a, t.access? (some k) = some a → a.name ≠ some 4) ∧
      t'.parenthesized? (some 5) = some (some 4) := by
  decide +kernel

theorem rowWrapped : (parse "f" rowText).tree.Wrapped (parse "f" rowParens).tree (parensAround 4) := by
  obtain ⟨size, _, kind, payload, top, free, unnamed, held⟩ := rowFacts
  generalize (parse "f" rowText).tree = t at *
  generalize (parse "f" rowParens).tree = t' at *
  rw [← size] at kind payload top
  refine ⟨kind, payload, fun i _ => ?_, top⟩
  by_cases here : i = 4
  · subst here
    refine .parens ⟨free, fun k a own => ?_, parenthesizedHeld held⟩
    exact unnamed k (size ▸ heldInside own) a (by simp [access?, payload?, own])
  · rw [aroundOthers here]
    exact .bare

/- The text is found unconstrained with the parentheses as it is without them. -/
theorem rowSaid :
    let p := parse "f" rowText
    let p' := parse "f" rowParens
    let a : Analysis := ⟨p.tree, p.root, "f", .unknown⟩
    let a' : Analysis := ⟨p'.tree, p'.root, "f", .unknown⟩
    (a.said Rule.unconstrainedTextInRow 4).isSome = true ∧
      (a'.said Rule.unconstrainedTextInRow 4).isSome = true := by
  intro p p' a a'
  obtain ⟨size, size', _⟩ := rowFacts
  have said : (a.said Rule.unconstrainedTextInRow 4).isSome = true := by decide +kernel
  have away : Analysis.Uncovered p.tree (parensAround 4) := by
    have names : ∀ j < 11, ∀ q ∈ p.tree.property? (some j), q.name ≠ some 4 := by decide +kernel
    have objects : ∀ j < 11, p.tree.kindIs (· == .propertyAssignment) j = true →
        p.tree.parent? j ≠ some 4 := by decide +kernel
    refine Analysis.aroundUncovered (by decide +kernel) (by decide +kernel) (fun j q held => ?_)
      fun j kind parent => ?_
    · exact names j (size ▸ heldInside held) q (by simp [property?, payload?, held])
    · have inside : p.tree.Inside (some j) := by
        intro k own
        cases own
        exact ⟨4, parent⟩
      exact objects j (size ▸ insideSize inside) kind parent
  have small : p.tree.Shallow := smallShallow (treeForest _ _) (by rw [size]; decide)
  have small' : p'.tree.Shallow := smallShallow (treeForest _ _) (by rw [size']; decide)
  refine ⟨said, (placesEnclosed "f" "f" rowText rowParens .unknown .unknown (parensAround 4)
    Rule.unconstrainedTextInRow 4 ?_ (.inr ⟨_, _, rfl⟩) (aroundEncloses rowWrapped) small small' away
    (by rw [size]; decide) ?_).trans said⟩
  · intro names asks
    cases asks
  · intro s predicates _ asks
    cases asks

/- Where the object of a field is in parentheses, its type is not found. -/
example :
    let found (text : String) := let p := parse "f" text.toList
      (Analysis.evaluate ⟨p.tree, p.root, "f", .declared p.tree⟩ Rule.addToClosedController).toOption.map
        List.length
    found "class C { out: Sink; f() { this.out.add(1); } }" = some 1 ∧
      found "class C { out: Sink; f() { (this).out.add(1); } }" = some 0 := by
  decide +kernel

/- A callback in parentheses does not run later. -/
example :
    let found (text : String) := let p := parse "f" text.toList
      (Analysis.evaluate ⟨p.tree, p.root, "f", .unknown⟩ Rule.emitAfterAwait).toOption.map List.length
    found "f.then(() => emit(1));" = some 1 ∧ found "f.then((() => emit(1)));" = some 0 := by
  decide +kernel

end Program
end CallGuard
