import CallGuard.Proofs.Condition.Entailment
import CallGuard.Proofs.Guard.Search
import Mathlib.Data.List.Nodup

/-! Trees before and after fixes. The new tree has the nodes of the old one with its links, only
that something was put around some of them, be it a guard, a wrapper or a pair of parentheses, and
nodes that are new. -/
namespace CallGuard

def NodeList.moved (f : NodeId → NodeId) (l : NodeList) : NodeList :=
  ⟨l.items.map (Option.map f), 0, 0⟩

/- Spans and texts are left out. -/
def Payload.moved (f : NodeId → NodeId) : Payload → Payload
  | .identifier name => .identifier name
  | .literal text => .literal text
  | .binary b => .binary ⟨b.left.map f, b.op, b.right.map f⟩
  | .unary u => .unary ⟨u.op, u.operand.map f⟩
  | .operand inner => .operand (inner.map f)
  | .call c => .call ⟨c.callee.map f, c.typeArgs.map (·.moved f), c.args.map (·.moved f)⟩
  | .access a => .access ⟨a.object.map f, a.name.map f, a.optional⟩
  | .conditional c => .conditional ⟨c.condition.map f, c.whenTrue.map f, c.whenFalse.map f⟩
  | .parenthesized inner => .parenthesized (inner.map f)
  | .elements l => .elements (l.moved f)
  | .property p => .property ⟨p.name.map f, p.init.map f⟩
  | .computedName inner => .computedName (inner.map f)
  | .function g => .function ⟨g.name.map f, g.params.moved f, g.type.map f, g.body.map f⟩
  | .parameter p => .parameter ⟨p.name.map f, p.type.map f, p.init.map f, p.rest, p.question⟩
  | .classBody c => .classBody ⟨c.name.map f, c.heritage.map f, c.members.moved f⟩
  | .field d => .field ⟨d.name.map f, d.type.map f, d.init.map f⟩
  | .typeReference r => .typeReference r
  | .block l => .block (l.moved f)
  | .declarations l => .declarations (l.moved f)
  | .declarator d => .declarator ⟨d.name.map f, d.type.map f, d.init.map f⟩
  | .expressionStatement inner => .expressionStatement (inner.map f)
  | .branch b => .branch ⟨b.test.map f, b.thenBranch.map f, b.elseBranch.map f⟩
  | .exit value => .exit (value.map f)
  | .jump label => .jump (label.map f)
  | .loop l => .loop ⟨l.init.map f, l.condition.map f, l.increment.map f, l.body.map f⟩
  | .iteration i => .iteration ⟨i.binding.map f, i.subject.map f, i.body.map f⟩
  | .attempt a => .attempt ⟨a.block.map f, a.handler.map f, a.finalizer.map f⟩
  | .handler h => .handler ⟨h.binding.map f, h.block.map f⟩
  | .sourceFile s => .sourceFile ⟨s.statements.moved f, "", []⟩

/- The forms that a search for a guard looks into. -/
def Form.isRead : Form → Bool
  | .identifier | .binary | .unary | .operand | .call | .access | .conditional | .parenthesized
  | .function | .block | .expressionStatement | .branch | .sourceFile => true
  | _ => false

inductive Payload.Alike (f : NodeId → NodeId) : Payload → Payload → Prop where
  | identifier {name} : Alike f (.identifier name) (.identifier name)
  | binary {b} : Alike f (.binary b) (.binary ⟨b.left.map f, b.op, b.right.map f⟩)
  | unary {u} : Alike f (.unary u) (.unary ⟨u.op, u.operand.map f⟩)
  | operand {inner} : Alike f (.operand inner) (.operand (inner.map f))
  | call {c d} (callee : d.callee = c.callee.map f)
      (args : d.args.map (·.items) = c.args.map (·.items.map (Option.map f))) :
      Alike f (.call c) (.call d)
  | access {a} : Alike f (.access a) (.access ⟨a.object.map f, a.name.map f, a.optional⟩)
  | conditional {c} : Alike f (.conditional c)
      (.conditional ⟨c.condition.map f, c.whenTrue.map f, c.whenFalse.map f⟩)
  | parenthesized {inner} : Alike f (.parenthesized inner) (.parenthesized (inner.map f))
  | function {g h} : Alike f (.function g) (.function h)
  | block {l m} (items : m.items = l.items.map (Option.map f)) : Alike f (.block l) (.block m)
  | expressionStatement {inner} :
      Alike f (.expressionStatement inner) (.expressionStatement (inner.map f))
  | branch {b} : Alike f (.branch b)
      (.branch ⟨b.test.map f, b.thenBranch.map f, b.elseBranch.map f⟩)
  | sourceFile {s r} (items : r.statements.items = s.statements.items.map (Option.map f)) :
      Alike f (.sourceFile s) (.sourceFile r)
  | other {p q} (same : q.form = p.form) (unread : p.form.isRead = false) : Alike f p q

theorem movedSlots (f : NodeId → NodeId) (p : Payload) :
    (p.moved f).slots = p.slots.map (Option.map f) := by
  cases p with
  | call c =>
    obtain ⟨callee, typeArgs, args⟩ := c
    cases typeArgs <;> cases args <;> simp [Payload.moved, Payload.slots, NodeList.moved]
  | _ => simp [Payload.moved, Payload.slots, NodeList.moved]

theorem movedForm (f : NodeId → NodeId) (p : Payload) : (p.moved f).form = p.form := by
  cases p <;> rfl

theorem movedItems (f : NodeId → NodeId) (args : Option NodeList) :
    (args.map (·.moved f)).map (·.items) = args.map (·.items.map (Option.map f)) := by
  cases args <;> rfl

theorem movedAlike {f : NodeId → NodeId} {p q : Payload} (same : q.moved id = p.moved f) :
    p.Alike f q := by
  have form : q.form = p.form := by rw [← movedForm id q, same, movedForm]
  cases p <;> cases q <;> cases form <;> try exact .other rfl rfl
  case function.function => exact .function
  case call.call c d =>
    have parts := Payload.call.inj same
    simp only [Call.mk.injEq, Option.map_id, id_eq] at parts
    refine .call parts.1 ?_
    have row := congrArg (Option.map NodeList.items) parts.2.2
    rw [movedItems, movedItems] at row
    simpa using row
  case block.block =>
    have parts := Payload.block.inj same
    exact .block (by simpa [NodeList.moved] using parts)
  case sourceFile.sourceFile =>
    have parts := Payload.sourceFile.inj same
    exact .sourceFile (by simpa [NodeList.moved] using parts)
  all_goals
    simp only [Payload.moved, Option.map_id, id_eq] at same
    first
      | cases same; constructor
      | rename_i after; cases after; cases same; constructor

/- What was put around a node: the outermost node of it, the test that it makes, and whether it
puts the node into a row of statements. -/
structure Wrapping where
  outer : NodeId
  test? : Option Slot
  row : Bool

/- Where the nodes of the old tree stand in the new one, and what was put around them there.
`leaves` has the names of the calls that were handed to a wrapper. -/
structure Move where
  inner : NodeId → NodeId
  wrapping : NodeId → Wrapping
  leaves : List String

namespace Move

def outer (v : Move) (i : NodeId) : NodeId := (v.wrapping i).outer

def slot (v : Move) (s : Slot) : Slot := s.map v.outer

def access (v : Move) (a : Access) : Access := ⟨v.slot a.object, v.slot a.name, a.optional⟩

def site (v : Move) (s : CallSite) : CallSite := ⟨v.inner s.node, s.name, v.slot s.receiver⟩

def subject (v : Move) : Subject → Subject
  | .implicitThis => .implicitThis
  | .expr s => .expr (v.slot s)

end Move

/- What fixes are put around. -/
def NodeKind.isCovered : NodeKind → Bool
  | .expressionStatement | .callExpression | .newExpression | .awaitExpression => true
  | _ => false

/- What they put around it. -/
def NodeKind.isCover : NodeKind → Bool
  | .ifStatement | .block | .conditionalExpression | .callExpression => true
  | _ => false

namespace Tree

/- `if (test) { child }` -/
inductive Chooses (t : Tree) (test : Slot) (child : NodeId) : NodeId → Prop where
  | intro {choice block l} (held : t.payloadAt? choice = some (.branch ⟨test, some block, none⟩))
      (body : t.payloadAt? block = some (.block l)) (alone : l.items = [some child]) :
      Chooses t test child choice

/- `(i)`. Statements and the names behind a dot have no parentheses around them. -/
structure Enclosed (t t' : Tree) (v : Move) (i outer : NodeId) : Prop where
  free : t.kindIs NodeKind.isStatement i = false
  unnamed : ∀ k a, t.payloadAt? k = some (.access a) → a.name ≠ some i
  held : t'.payloadAt? outer = some (.parenthesized (some (v.inner i)))

/- The shapes that fixes write, and parentheses. -/
inductive Wraps (t t' : Tree) (v : Move) (i : NodeId) : Wrapping → Prop where
  | bare : Wraps t t' v i ⟨v.inner i, none, false⟩
  | statement {test outer} (kind : t.kind? i = some .expressionStatement)
      (choice : t'.Chooses test (v.inner i) outer) : Wraps t t' v i ⟨outer, some test, true⟩
  | braced {test choice l outer} (kind : t.kind? i = some .expressionStatement)
      (held : t'.payloadAt? outer = some (.block l)) (only : l.items = [some choice])
      (choice : t'.Chooses test (v.inner i) choice) : Wraps t t' v i ⟨outer, some test, true⟩
  | body {p f test other outer} (covered : t.kindIs NodeKind.isCovered i = true)
      (parent : t.parent? i = some p) (function : t.payloadAt? p = some (.function f))
      (choice : t'.payloadAt? outer = some (.conditional ⟨test, some (v.inner i), other⟩)) :
      Wraps t t' v i ⟨outer, some test, false⟩
  | leaf {s c l outer} (site : t.callSite? i = some s) (named : s.name ∈ v.leaves)
      (kind : t'.kind? outer = some .callExpression) (held : t'.payloadAt? outer = some (.call c))
      (args : c.args = some l) (alone : l.items = [some (v.inner i)]) :
      Wraps t t' v i ⟨outer, none, false⟩
  | parens {outer} (enclosed : t.Enclosed t' v i outer) : Wraps t t' v i ⟨outer, none, false⟩

structure Wrapped (t t' : Tree) (v : Move) : Prop where
  kind : ∀ i < t.size, t'.kind? (v.inner i) = t.kind? i
  payload : ∀ i < t.size,
    (t'.payloadAt? (v.inner i)).map (Payload.moved id) =
      (t.payloadAt? i).map (Payload.moved v.outer)
  wraps : ∀ i < t.size, t.Wraps t' v i (v.wrapping i)
  top : ∀ i < t.size, t.parent? i = none → t'.parent? (v.outer i) = none

/- The place is empty or that of a child. -/
def Inside (t : Tree) (s : Slot) : Prop := ∀ i ∈ s, ∃ k, t.parent? i = some k

variable {t t' : Tree} {v : Move} {i j : NodeId} {p q : Payload} {s : Slot}

/-! ### Nodes -/

theorem slotInside {child : Slot} (forest : t.Forest) (held : t.payload? s = some p)
    (own : child ∈ p.slots) : t.Inside child := by
  rintro j rfl
  obtain ⟨i, rfl, held⟩ := Option.bind_eq_some_iff.mp held
  exact ⟨i, heldParent forest held own⟩

theorem insideSize (inside : t.Inside (some i)) : i < t.size := by
  obtain ⟨k, parent⟩ := inside i rfl
  obtain ⟨n, found, _⟩ := Option.bind_eq_some_iff.mp parent
  exact getInside found

theorem accessInside {a : Access} (forest : t.Forest) (held : t.payload? s = some (.access a)) :
    t.Inside a.object ∧ t.Inside a.name :=
  ⟨slotInside forest held (by simp [Payload.slots]), slotInside forest held (by simp [Payload.slots])⟩

theorem parentHeld (forest : t.Forest) (parent : t.parent? j = some i) :
    ∃ p, t.payloadAt? i = some p ∧ some j ∈ p.slots := by
  have child := (forest.parent i j).mp parent
  unfold linksOf at child
  cases found : t.get? i with
  | none => simp [found] at child
  | some n =>
    cases own : n.payload? with
    | none => simp [found, Node.links, own] at child
    | some p =>
      refine ⟨p, (payloadAgreed found (forest.agrees i n found)).trans own, ?_⟩
      simpa [found, Node.links, own, Payload.links] using child

theorem movedHeld (w : t.Wrapped t' v) (held : t.payloadAt? i = some p) :
    ∃ q, t'.payloadAt? (v.inner i) = some q ∧ p.Alike v.outer q ∧
      q.slots = p.slots.map v.slot := by
  have same := w.payload i (heldInside held)
  rw [held] at same
  obtain ⟨q, held', same⟩ := Option.map_eq_some_iff.mp same
  have slots := congrArg Payload.slots same
  rw [movedSlots, movedSlots, Option.map_id_fun, List.map_id] at slots
  exact ⟨q, held', movedAlike same, slots⟩

theorem movedAbsent (w : t.Wrapped t' v) (inside : i < t.size) (absent : t.payloadAt? i = none) :
    t'.payloadAt? (v.inner i) = none := by
  have same := w.payload i inside
  rwa [absent, Option.map_none, Option.map_eq_none_iff] at same

theorem heldMoved (w : t.Wrapped t' v) (inside : i < t.size)
    (held : t'.payloadAt? (v.inner i) = some q) : ∃ p, t.payloadAt? i = some p ∧ p.Alike v.outer q := by
  cases old : t.payloadAt? i with
  | none => rw [movedAbsent w inside old] at held; cases held
  | some p =>
    obtain ⟨q, held', alike, _⟩ := movedHeld w old
    cases held.symm.trans held'
    exact ⟨p, rfl, alike⟩

theorem movedParent (w : t.Wrapped t' v) (old : t.Forest) (new : t'.Forest)
    (parent : t.parent? i = some j) : t'.parent? (v.outer i) = some (v.inner j) := by
  obtain ⟨p, held, own⟩ := parentHeld old parent
  obtain ⟨q, held', _, slots⟩ := movedHeld w held
  refine heldParent new held' ?_
  rw [slots]
  exact List.mem_map.mpr ⟨_, own, rfl⟩

/- What is put around siblings stays apart. -/
theorem outerOnce (w : t.Wrapped t' v) (old : t.Forest) (new : t'.Forest) {k : NodeId}
    (parent : t.parent? i = some k) (parent' : t.parent? j = some k)
    (same : v.outer i = v.outer j) : i = j := by
  obtain ⟨p, held, own⟩ := parentHeld old parent
  obtain ⟨q, held', _, slots⟩ := movedHeld w held
  have own' : some j ∈ p.slots := by
    obtain ⟨p', other, own'⟩ := parentHeld old parent'
    cases held.symm.trans other
    exact own'
  have links : q.links = p.links.map v.outer := by
    rw [Payload.links, slots, Payload.links, List.filterMap_map, List.map_filterMap]
    rfl
  have once := new.once (v.inner k)
  rw [heldLinks new held', links] at once
  exact List.inj_on_of_nodup_map once (List.mem_filterMap.mpr ⟨_, own, rfl⟩)
    (List.mem_filterMap.mpr ⟨_, own', rfl⟩) same

/-! ### Places -/

theorem isKindAt (k : NodeKind) (i : NodeId) : t.isKind (some i) k = t.kindIs (· == k) i := by
  simp only [isKind, node?, kindIs, kind?, Option.bind_some]
  cases t.get? i <;> rfl

theorem kindIsHeld {good : NodeKind → Bool} :
    t.kindIs good i = true ↔ ∃ k, t.kind? i = some k ∧ good k = true := by
  unfold kindIs
  cases t.kind? i <;> simp

theorem kindIsMoved (w : t.Wrapped t' v) (inside : i < t.size) (good : NodeKind → Bool) :
    t'.kindIs good (v.inner i) = t.kindIs good i := by
  rw [kindIs, kindIs, w.kind i inside]

/- A node that fixes cover or write is no layer, no name, no access and no operator. -/
structure Closed (t : Tree) (i : NodeId) : Prop where
  layer : t.parensInner? (some i) = none
  name : t.identifier? (some i) = none
  member : t.access? (some i) = none
  kind : ∀ k, t.kind? i = some k → k ≠ .propertyAccess ∧ ∀ w, k ≠ .token w
  operator : ∀ u, t.payloadAt? i ≠ some (.unary u)
  junction : ∀ b, t.payloadAt? i ≠ some (.binary b)

theorem closedKind (forest : t.Forest)
    (kind : t.kindIs (fun k => k.isCovered || k.isCover) i = true) : t.Closed i := by
  obtain ⟨k, found, special⟩ := kindIsHeld.mp kind
  have form {p : Payload} (held : t.payloadAt? i = some p) : k.form? = some p.form := by
    obtain ⟨k', found', form⟩ := heldKind forest held
    cases found.symm.trans found'
    exact form
  refine ⟨?_, ?_, ?_, ?_, ?_, ?_⟩
  · cases around : t.parensInner? (some i) with
    | none => rfl
    | some inner =>
      have nonNull : t.isKind (some i) .nonNull = false := by
        rw [isKindAt, kindIs, found]
        cases k <;> cases special <;> rfl
      rcases layerHeld around with held | held
      · have := form held
        cases k <;> cases special <;> cases this
      · simp [parensInner?, nonNull, parenthesized?, held] at around
  · cases named : t.identifier? (some i) with
    | none => rfl
    | some name =>
      have := form (identifierHeld named)
      cases k <;> cases special <;> cases this
  · cases accessed : t.access? (some i) with
    | none => rfl
    | some a =>
      have := form (accessHeld accessed)
      cases k <;> cases special <;> cases this
  · intro k' found'
    cases found.symm.trans found'
    constructor
    · rintro rfl
      cases special
    · rintro w rfl
      cases special
  · intro u held
    have := form held
    cases k <;> cases special <;> cases this
  · intro b held
    have := form held
    cases k <;> cases special <;> cases this

theorem conditionalKind {k : NodeKind} (form : k.form? = some .conditional) :
    k = .conditionalExpression := by
  unfold NodeKind.form? at form
  split at form <;> cases form
  rfl

theorem siteNode {c : CallSite} (site : t.callSite? i = some c) : c.node = i := by
  obtain ⟨call, _, site⟩ := Option.bind_eq_some_iff.mp site
  dsimp only at site
  split at site
  · obtain ⟨a, _, site⟩ := Option.bind_eq_some_iff.mp site
    obtain ⟨name, _, site⟩ := Option.bind_eq_some_iff.mp site
    cases site
    rfl
  · obtain ⟨name, _, site⟩ := Option.bind_eq_some_iff.mp site
    cases site
    rfl

theorem siteCovered {c : CallSite} (forest : t.Forest) (site : t.callSite? i = some c) :
    t.kindIs NodeKind.isCovered i = true := by
  obtain ⟨call, called, _⟩ := Option.bind_eq_some_iff.mp site
  obtain ⟨k, found, form⟩ := heldKind forest (callHeld called)
  have isCall := callKind form
  refine kindIsHeld.mpr ⟨k, found, ?_⟩
  cases k <;> cases isCall <;> rfl

/- Nothing is around a node, or neither it nor what is around it is read by conditions, or it is in
parentheses. -/
theorem movedClosed (w : t.Wrapped t' v) (old : t.Forest) (new : t'.Forest) (inside : i < t.size) :
    v.outer i = v.inner i ∨ t.Closed i ∧ t'.Closed (v.outer i) ∨ t.Enclosed t' v i (v.outer i) := by
  have shape := w.wraps i inside
  unfold Move.outer
  generalize v.wrapping i = x at shape ⊢
  have covered {k : NodeKind} (kind : t.kind? i = some k) (special : k.isCovered = true) :
      t.Closed i := closedKind old (kindIsHeld.mpr ⟨k, kind, by simp [special]⟩)
  have cover {outer : NodeId} {k : NodeKind} (kind : t'.kind? outer = some k)
      (special : k.isCover = true) : t'.Closed outer :=
    closedKind new (kindIsHeld.mpr ⟨k, kind, by simp [special]⟩)
  cases shape with
  | bare => exact .inl rfl
  | statement kind choice =>
    obtain ⟨held, _, _⟩ := choice
    obtain ⟨k, found, form⟩ := heldKind new held
    cases branchKind form
    exact .inr (.inl ⟨covered kind rfl, cover found rfl⟩)
  | braced kind held _ _ =>
    obtain ⟨k, found, form⟩ := heldKind new held
    cases blockKind form
    exact .inr (.inl ⟨covered kind rfl, cover found rfl⟩)
  | body special _ _ choice =>
    obtain ⟨k, kind, special⟩ := kindIsHeld.mp special
    obtain ⟨k', found, form⟩ := heldKind new choice
    cases conditionalKind form
    exact .inr (.inl ⟨covered kind special, cover found rfl⟩)
  | leaf site _ kind _ _ _ =>
    obtain ⟨k, found, special⟩ := kindIsHeld.mp (siteCovered old site)
    exact .inr (.inl ⟨covered found special, cover kind rfl⟩)
  | parens enclosed => exact .inr (.inr enclosed)

theorem unreadNothing (held : t.payloadAt? i = some p) (unread : p.form.isRead = false) :
    t.parenthesized? (some i) = none ∧ t.operand? (some i) = none ∧
      t.identifier? (some i) = none ∧ t.access? (some i) = none ∧ t.call? (some i) = none := by
  cases p <;> cases unread <;>
    simp [parenthesized?, operand?, identifier?, access?, call?, payload?, held]

theorem readsMoved (w : t.Wrapped t' v) (inside : i < t.size) :
    t'.parenthesized? (some (v.inner i)) = (t.parenthesized? (some i)).map v.slot ∧
      t'.operand? (some (v.inner i)) = (t.operand? (some i)).map v.slot ∧
      t'.identifier? (some (v.inner i)) = t.identifier? (some i) ∧
      t'.access? (some (v.inner i)) = (t.access? (some i)).map v.access := by
  cases held : t.payloadAt? i with
  | none =>
    have held' := movedAbsent w inside held
    simp [parenthesized?, operand?, identifier?, access?, payload?, held, held']
  | some p =>
    obtain ⟨q, held', alike, _⟩ := movedHeld w held
    cases alike with
    | other same unread =>
      obtain ⟨parens, operand, name, member, _⟩ := unreadNothing held unread
      obtain ⟨parens', operand', name', member', _⟩ := unreadNothing held' (same ▸ unread)
      simp [parens, operand, name, member, parens', operand', name', member']
    | _ =>
      simp [parenthesized?, operand?, identifier?, access?, payload?, held, held', Move.slot,
        Move.access]

theorem parensMoved (w : t.Wrapped t' v) (inside : i < t.size) :
    t'.parensInner? (some (v.inner i)) = (t.parensInner? (some i)).map v.slot := by
  obtain ⟨parens, operand, _, _⟩ := readsMoved w inside
  unfold parensInner?
  rw [parens, operand, isKindAt, isKindAt, kindIsMoved w inside]
  cases t.parenthesized? (some i) with
  | some inner => rfl
  | none => simp only [Option.map_none]; split <;> rfl

/-! ### Parentheses -/

theorem parensInside {inner : Slot} (forest : t.Forest) (around : t.parensInner? s = some inner) :
    t.Inside inner := by
  rcases layerHeld around with held | held
  · exact slotInside forest held List.mem_cons_self
  · exact slotInside forest held List.mem_cons_self

theorem stripsInside {run : Nat} {core : Slot} (forest : t.Forest) (strips : t.Strips run s core)
    (inside : t.Inside s) : t.Inside core := by
  induction strips with
  | core _ => exact inside
  | layer around _ ih => exact ih (parensInside forest around)

theorem nothingStrips {run : Nat} {core : Slot} (strips : t.Strips run none core) : core = none := by
  cases strips with
  | core _ => rfl
  | layer around _ => cases around

/- The parentheses around a core are above it. -/
theorem stripsDepth {run n : Nat} {core : Slot} (forest : t.Forest) (shallow : t.Shallow)
    (strips : t.Strips run (some i) core) (depth : t.Depth i n) :
    ∃ short, t.Strips short (some i) core ∧ n + short ≤ maxAscent + 1 := by
  generalize here : some i = s at strips ⊢
  induction strips generalizing i n with
  | core bare => exact ⟨0, .core bare, Nat.le_succ_of_le (shallow i n depth)⟩
  | @layer run s inner core around rest ih =>
    cases inner with
    | none =>
      cases nothingStrips rest
      exact ⟨1, .layer around (.core rfl), Nat.succ_le_succ (shallow i n depth)⟩
    | some j =>
      have parent : t.parent? j = some i := by
        rw [← here] at around
        rcases layerHeld around with held | held
        · exact heldParent forest held List.mem_cons_self
        · exact heldParent forest held List.mem_cons_self
      obtain ⟨short, strips, bound⟩ := ih (.under parent depth) rfl
      exact ⟨short + 1, .layer around strips, by omega⟩

/- In a tree without long ways up all parentheses around a child are skipped. -/
theorem skipStrips (forest : t.Forest) (shallow : t.Shallow) (inside : t.Inside s) :
    t.Strips maxAscent s (t.skipParens s) := by
  obtain ⟨run, core, strips, _⟩ := stripsExists forest t.size s fun i own => insideSize (own ▸ inside)
  have short : t.Strips maxAscent s core := by
    cases s with
    | none =>
      cases nothingStrips strips
      exact .core rfl
    | some i =>
      obtain ⟨k, parent⟩ := inside i rfl
      obtain ⟨n, depth, _⟩ := depthExists forest k
      obtain ⟨short, strips, bound⟩ := stripsDepth forest shallow strips (.under parent depth)
      exact stripsMore strips (by omega)
  rw [skipParensCore short (Nat.le_refl _)]
  exact short

theorem skipAgain (forest : t.Forest) (shallow : t.Shallow) (inside : t.Inside s) :
    t.skipParens (t.skipParens s) = t.skipParens s :=
  skipParensBare (stripsBare (skipStrips forest shallow inside))

/- What a place of the old tree is in the new one once the parentheses around it are off. -/
inductive Shows (t t' : Tree) (v : Move) : Slot → Slot → Prop where
  | nothing : Shows t t' v none none
  | bare {i : NodeId} (inside : i < t.size) : Shows t t' v (some i) (some (v.inner i))
  | closed {i : NodeId} (inside : i < t.size) (closed : t.Closed i) (closed' : t'.Closed (v.outer i)) :
      Shows t t' v (some i) (some (v.outer i))

section
variable {s' : Slot} (w : t.Wrapped t' v) (shows : t.Shows t' v s s')
include w shows

theorem nameShown : t'.identifier? s' = t.identifier? s := by
  cases shows with
  | nothing => rfl
  | bare inside => exact (readsMoved w inside).2.2.1
  | closed _ closed closed' => rw [closed.name, closed'.name]

theorem accessShown : t'.access? s' = (t.access? s).map v.access := by
  cases shows with
  | nothing => rfl
  | bare inside => exact (readsMoved w inside).2.2.2
  | closed _ closed closed' => rw [closed.member, closed'.member]; rfl

/- Only kinds that fixes neither cover nor write can be told from the new tree. -/
theorem kindShown : t'.kind? =<< s' = t.kind? =<< s ∨
    (∀ k, t.kind? =<< s = some k → k ≠ .propertyAccess ∧ ∀ w, k ≠ .token w) ∧
      ∀ k, t'.kind? =<< s' = some k → k ≠ .propertyAccess ∧ ∀ w, k ≠ .token w := by
  cases shows with
  | nothing => exact .inl rfl
  | bare inside => exact .inl (w.kind _ inside)
  | closed _ closed closed' => exact .inr ⟨closed.kind, closed'.kind⟩

theorem memberShown : t'.isKind s' .propertyAccess = t.isKind s .propertyAccess := by
  have member (t : Tree) (s : Slot) :
      t.isKind s .propertyAccess = (t.kind? =<< s).any (· == .propertyAccess) := by
    cases s with
    | none => rfl
    | some i => exact isKindAt _ i
  rw [member, member]
  rcases kindShown w shows with same | ⟨other, other'⟩
  · rw [same]
  · cases found : t.kind? =<< s <;> cases found' : t'.kind? =<< s' <;> simp_all

end

section
variable (w : t.Wrapped t' v) (old : t.Forest) (new : t'.Forest)
include w old new

theorem insideMoved (inside : t.Inside s) : t'.Inside (v.slot s) := by
  intro j own
  obtain ⟨i, rfl, rfl⟩ := Option.map_eq_some_iff.mp own
  obtain ⟨k, parent⟩ := inside i rfl
  exact ⟨_, movedParent w old new parent⟩

/- The name behind a dot is never in parentheses. -/
theorem nameMoved {a : Access} (held : t.payload? s = some (.access a)) :
    t'.identifier? (v.slot a.name) = t.identifier? a.name := by
  cases named : a.name with
  | none => rfl
  | some i =>
    have inside : i < t.size := insideSize (named ▸ (accessInside old held).2)
    show t'.identifier? (some (v.outer i)) = _
    rcases movedClosed w old new inside with bare | ⟨closed, closed'⟩ | enclosed
    · rw [bare]
      exact nameShown w (.bare inside)
    · exact nameShown w (.closed inside closed closed')
    · obtain ⟨k, rfl, held⟩ := Option.bind_eq_some_iff.mp held
      exact absurd named (enclosed.unnamed k a held)

/- Parentheses that were put around a node come off with those that it has itself. -/
theorem outerStrips {run : Nat} {core' : Slot} (inside : i < t.size)
    (strips : t'.Strips run (some (v.inner i)) core') :
    (∃ run', t'.Strips run' (v.slot (some i)) core') ∨ t.Closed i ∧ t'.Closed (v.outer i) := by
  rcases movedClosed w old new inside with bare | closed | enclosed
  · rw [show v.slot (some i) = some (v.inner i) from congrArg some bare]
    exact .inl ⟨run, strips⟩
  · exact .inr closed
  · have held : t'.payload? (v.slot (some i)) = some _ := enclosed.held
    exact .inl ⟨run + 1, .layer (by simp [parensInner?, parenthesized?, held]) strips⟩

theorem stripsShows {run : Nat} {core : Slot} (strips : t.Strips run s core) (inside : t.Inside s) :
    ∃ run' core', t'.Strips run' (v.slot s) core' ∧ t.Shows t' v core core' := by
  induction strips with
  | @core run s bare =>
    cases s with
    | none => exact ⟨0, none, .core rfl, .nothing⟩
    | some i =>
      have size := insideSize inside
      have bare' : t'.parensInner? (some (v.inner i)) = none := by rw [parensMoved w size, bare]; rfl
      have strips : t'.Strips 0 (some (v.inner i)) (some (v.inner i)) := .core bare'
      rcases outerStrips w old new size strips with ⟨run', strips'⟩ | ⟨closed, closed'⟩
      · exact ⟨run', _, strips', .bare size⟩
      · exact ⟨0, _, .core closed'.layer, .closed size closed closed'⟩
  | @layer run s inner core layered _ ih =>
    cases s with
    | none => cases layered
    | some i =>
      have size := insideSize inside
      obtain ⟨run', core', rest, shows⟩ := ih (parensInside old layered)
      have layered' : t'.parensInner? (some (v.inner i)) = some (v.slot inner) := by
        rw [parensMoved w size, layered]; rfl
      rcases outerStrips w old new size (.layer layered' rest) with ⟨more, strips'⟩ | ⟨closed, _⟩
      · exact ⟨more, core', strips', shows⟩
      · rw [closed.layer] at layered
        cases layered

theorem skipShows (shallow : t.Shallow) (shallow' : t'.Shallow) (inside : t.Inside s) :
    t.Shows t' v (t.skipParens s) (t'.skipParens (v.slot s)) ∧ t.Inside (t.skipParens s) := by
  have strips := skipStrips old shallow inside
  obtain ⟨run', core', strips', shows⟩ := stripsShows w old new strips inside
  have skip := skipStrips new shallow' (insideMoved w old new inside)
  rw [stripsSame skip strips']
  exact ⟨shows, stripsInside old strips inside⟩

end

end Tree

end CallGuard
