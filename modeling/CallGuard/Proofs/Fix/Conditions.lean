import CallGuard.Proofs.Fix.Wrapping

/-! What conditions and calls say is read in the new tree as in the old one. -/
namespace CallGuard

namespace Tree

def Holds (t : Tree) : Subject → Prop
  | .implicitThis => True
  | .expr s => t.Inside s

/- Subjects that are told apart by their texts are told apart as before. -/
def Legible (t t' : Tree) (v : Move) : Subject → Prop
  | .implicitThis => True
  | .expr r => t.reference? r = none → ∀ s, t.Inside s →
    (t'.bareText? (v.slot s) = t'.bareText? (v.slot r) ↔ t.bareText? s = t.bareText? r)

/- The place is not the body of a function. -/
def Bodiless (t : Tree) (s : Slot) : Prop :=
  ∀ i ∈ s, ∀ p f, t.parent? i = some p → t.payloadAt? p ≠ some (.function f)

variable {t t' : Tree} {v : Move} {i j : NodeId} {s : Slot} (w : t.Wrapped t' v) (old : t.Forest)
  (new : t'.Forest) (shallow : t.Shallow) (shallow' : t'.Shallow)
include w old new shallow shallow'

theorem callMoved {c : Call} (held : t.payload? (some i) = some (.call c)) :
    ∃ d, t'.payloadAt? (v.inner i) = some (.call d) ∧
      t.Shows t' v (t.skipParens c.callee) (t'.skipParens d.callee) ∧
      d.args.map (·.items) = c.args.map (·.items.map v.slot) := by
  obtain ⟨q, held', alike, _⟩ := movedHeld w held
  cases alike with
  | call callee args =>
    have skip := skipShows w old new shallow shallow' (slotInside old held List.mem_cons_self)
    exact ⟨_, held', callee ▸ skip.1, args⟩
  | other _ unread => cases unread

omit old new shallow shallow' in
theorem callAbsent (inside : i < t.size) (called : t.call? (some i) = none) :
    t'.call? (some (v.inner i)) = none := by
  cases called' : t'.call? (some (v.inner i)) with
  | none => rfl
  | some d =>
    obtain ⟨p, held, alike⟩ := heldMoved w inside (callHeld called')
    cases alike with
    | call _ _ =>
      have held : t.payload? (some i) = some _ := held
      simp [call?, held] at called
    | other same unread =>
      rw [← same] at unread
      cases unread

theorem siteMoved (inside : i < t.size) :
    t'.callSite? (v.inner i) = (t.callSite? i).map v.site := by
  unfold callSite?
  cases called : t.call? (some i) with
  | none => rw [callAbsent w inside called]; rfl
  | some c =>
    obtain ⟨d, held', shows, _⟩ := callMoved w old new shallow shallow' (callHeld called)
    have called' : t'.call? (some (v.inner i)) = some d := by simp [call?, payload?, held']
    have construction : t'.isKind (some (v.inner i)) .newExpression =
        t.isKind (some i) .newExpression := by
      rw [isKindAt, isKindAt, kindIsMoved w inside]
    simp only [called', Option.bind_eq_bind, Option.bind_some, construction, memberShown w shows,
      accessShown w shows, nameShown w shows]
    split
    · cases accessed : t.access? (t.skipParens c.callee) with
      | none => rfl
      | some a =>
        have named := nameMoved w old new (accessHeld accessed)
        simp only [Option.map_some, Option.bind_some, Move.access, named]
        cases t.identifier? a.name with
        | none => rfl
        | some name => simp only [Option.bind_some, Option.map_some, Move.site]; split <;> rfl
    · cases t.identifier? (t.skipParens c.callee) <;> rfl

/-! ### Subjects -/

/- What is put around a node has no reference, just as the node has none. -/
theorem referenceMoved (limit : Nat) (inside : t.Inside s) :
    t'.referenceNames? limit (v.slot s) = t.referenceNames? limit s := by
  induction limit generalizing s with
  | zero => rfl
  | succ limit ih =>
    have shows := (skipShows w old new shallow shallow' inside).1
    rw [referenceNames?, referenceNames?]
    generalize t.skipParens s = core at shows
    generalize t'.skipParens (v.slot s) = core' at shows
    rcases kindShown w shows with same | ⟨other, other'⟩
    · rw [same, nameShown w shows, accessShown w shows]
      split
      · rfl
      · rfl
      · cases accessed : t.access? core with
        | none => simp only [Option.map_none, Option.bind_eq_bind, Option.bind_none]
        | some a =>
          have object := (accessInside old (accessHeld accessed)).1
          simp only [Option.map_some, Option.bind_eq_bind, Option.bind_some, Move.access, ih object,
            nameMoved w old new (accessHeld accessed)]
      · rfl
    · split <;> split <;> simp_all

theorem subjectMoved {r : Subject} {k : SubjectKey} (inside : t.Holds r)
    (legible : t.Legible t' v r) (key : t.keyOf? r = some k) :
    ∃ k', t'.keyOf? (v.subject r) = some k' ∧
      ∀ o, t.Holds o → (t'.keyOf? (v.subject o) = some k' ↔ t.keyOf? o = some k) := by
  have same {s : Slot} (inside : t.Inside s) : t'.reference? (v.slot s) = t.reference? s := by
    unfold reference?
    rw [referenceMoved w old new shallow shallow' _ inside]
  have known (names : List String) (o : Subject) (inside : t.Holds o) :
      t'.keyOf? (v.subject o) = some (.reference names) ↔ t.keyOf? o = some (.reference names) := by
    cases o with
    | implicitThis => rfl
    | expr s =>
      simp only [Move.subject, keyOf?, subjectKey?, same inside]
      cases t.reference? s <;> simp
  cases r with
  | implicitThis =>
    cases key
    exact ⟨_, rfl, known _⟩
  | expr r =>
    simp only [keyOf?, subjectKey?] at key
    cases found : t.reference? r with
    | some names =>
      simp only [found] at key
      cases key
      exact ⟨_, (known names (.expr r) inside).mpr (by simp [keyOf?, subjectKey?, found]), known names⟩
    | none =>
      simp only [found] at key
      obtain ⟨chars, text, rfl⟩ := Option.map_eq_some_iff.mp key
      cases text' : t'.bareText? (v.slot r) with
      | none =>
        have absent := (legible found none (by rintro _ ⟨⟩)).mp (by rw [text']; rfl)
        rw [text] at absent
        cases absent
      | some chars' =>
        refine ⟨.text chars', by simp [Move.subject, keyOf?, subjectKey?, same inside, found, text'],
          fun o holds => ?_⟩
        cases o with
        | implicitThis => simp [Move.subject, keyOf?]
        | expr s =>
          have alike := legible found s holds
          rw [text, text'] at alike
          have sameHere : t'.reference? (v.slot s) = t.reference? s := same holds
          simp only [Move.subject, keyOf?, subjectKey?, sameHere]
          cases t.reference? s <;> simp [alike]

/-! ### Tests -/

omit w new shallow shallow' in
theorem ownBodiless {p : Payload} {child : Slot} (held : t.payload? s = some p)
    (own : child ∈ p.slots) (other : ∀ f, p ≠ .function f) : t.Bodiless child := by
  rintro i rfl p' f parent function
  obtain ⟨j, rfl, held⟩ := Option.bind_eq_some_iff.mp held
  cases (heldParent old held own).symm.trans parent
  exact other f (Option.some.inj (held.symm.trans function))

omit w new shallow shallow' in
theorem skipBodiless (bodiless : t.Bodiless s) : t.Bodiless (t.skipParens s) := by
  unfold skipParens
  generalize maxAscent = limit
  induction limit generalizing s with
  | zero => exact bodiless
  | succ limit ih =>
    rw [unwrapBy]
    cases around : t.parensInner? s with
    | none => exact bodiless
    | some inner =>
      refine ih ?_
      rcases layerHeld around with held | held
      · exact ownBodiless old held List.mem_cons_self (by simp)
      · exact ownBodiless old held List.mem_cons_self (by simp)

/- The name of what is tested and its object, once parentheses and an empty call are off. -/
def memberName? (t : Tree) (member : Slot) : Option (String × Subject) :=
  if t.isKind member .propertyAccess then do
    let access ← t.access? member
    let name ← t.identifier? access.name
    some (name, .expr access.object)
  else (t.identifier? member).map (·, .implicitThis)

def coreMember? (t : Tree) (core : Slot) : Option Slot :=
  if t.isKind core .callExpression then do
    let call ← t.call? core
    if call.args.any fun args => !args.items.isEmpty then none else some (t.skipParens call.callee)
  else some core

omit w old new shallow shallow' in
theorem testedParts (s : Slot) :
    t.testedName? s = (t.coreMember? (t.skipParens s)).bind t.memberName? := by
  unfold testedName? memberName?
  simp only [show t.testedMember? s = t.coreMember? (t.skipParens s) from rfl]
  congr 1
  funext member
  split
  · rfl
  · cases t.identifier? member <;> rfl

omit shallow shallow' in
theorem memberNameShown {s' : Slot} (shows : t.Shows t' v s s') :
    t'.memberName? s' = (t.memberName? s).map fun x => (x.1, v.subject x.2) := by
  unfold memberName?
  rw [memberShown w shows, accessShown w shows, nameShown w shows]
  split
  · cases accessed : t.access? s with
    | none => simp only [Option.map_none, Option.bind_eq_bind, Option.bind_none]
    | some a =>
      simp only [Option.map_some, Option.bind_eq_bind, Option.bind_some, Move.access,
        nameMoved w old new (accessHeld accessed)]
      cases t.identifier? a.name <;> rfl
  · cases t.identifier? s <;> rfl

theorem coreMoved (inside : i < t.size) :
    Option.Rel (t.Shows t' v) (t.coreMember? (some i)) (t'.coreMember? (some (v.inner i))) := by
  have kind : t'.isKind (some (v.inner i)) .callExpression = t.isKind (some i) .callExpression := by
    rw [isKindAt, isKindAt, kindIsMoved w inside]
  unfold coreMember?
  rw [kind]
  split
  · cases called : t.call? (some i) with
    | none =>
      rw [callAbsent w inside called]
      exact .none
    | some c =>
      obtain ⟨d, held', shows, args⟩ := callMoved w old new shallow shallow' (callHeld called)
      have called' : t'.call? (some (v.inner i)) = some d := by simp [call?, payload?, held']
      have full : (d.args.any fun l => !l.items.isEmpty) = c.args.any fun l => !l.items.isEmpty := by
        have same := congrArg (Option.any fun items => !items.isEmpty) args
        rw [Option.any_map, Option.any_map] at same
        simpa [Function.comp_def] using same
      rw [called']
      simp only [Option.bind_eq_bind, Option.bind_some, full]
      split
      · exact .none
      · exact .some shows
  · exact .some (.bare inside)

theorem testMoved (inside : i < t.size) : (t'.coreMember? (some (v.inner i))).bind t'.memberName? =
    ((t.coreMember? (some i)).bind t.memberName?).map fun x => (x.1, v.subject x.2) := by
  have core := coreMoved w old new shallow shallow' inside
  generalize t.coreMember? (some i) = member at core
  generalize t'.coreMember? (some (v.inner i)) = member' at core
  cases core with
  | none => rfl
  | some shows => exact memberNameShown w old new shows

omit w old new shallow shallow' in
theorem closedSilent (closed : t.Closed i) (kind : t.isKind (some i) .callExpression = false) :
    (t.coreMember? (some i)).bind t.memberName? = none := by
  have member : t.isKind (some i) .propertyAccess = false := by
    rw [isKindAt, kindIs]
    cases found : t.kind? i with
    | none => rfl
    | some k => simpa using (closed.kind k found).1
  simp [coreMember?, memberName?, kind, member, closed.name]

/- An empty call is a test by the name that it has as a call. -/
omit w old new shallow shallow' in
theorem testSite {x : String × Subject} {y : CallSite} (closed : t.Closed i)
    (tested : (t.coreMember? (some i)).bind t.memberName? = some x)
    (site : t.callSite? i = some y) : x.1 = y.name := by
  cases kind : t.isKind (some i) .callExpression with
  | false =>
    rw [closedSilent closed kind] at tested
    cases tested
  | true =>
    obtain ⟨c, called, site⟩ := Option.bind_eq_some_iff.mp site
    simp only [coreMember?, kind, if_true, called, Option.bind_eq_bind, Option.bind_some] at tested
    split at tested
    · cases tested
    · simp only [Option.bind_some, memberName?] at tested
      split at tested
      · rename_i member
        simp only [member, if_true] at site
        obtain ⟨a, accessed, tested⟩ := Option.bind_eq_some_iff.mp tested
        obtain ⟨name, named, tested⟩ := Option.bind_eq_some_iff.mp tested
        simp only [accessed, Option.bind_eq_bind, Option.bind_some, named] at site
        cases site
        cases tested
        rfl
      · rename_i member
        simp only [member] at site
        obtain ⟨name, named, rfl⟩ := Option.map_eq_some_iff.mp tested
        simp only [named, Option.bind_eq_bind, Option.bind_some] at site
        cases site
        rfl

omit w old shallow shallow' in
theorem outerSilent {outer : NodeId} {p : Payload} (closed : t'.Closed outer)
    (held : t'.payloadAt? outer = some p) (other : p.form ≠ .call) :
    (t'.coreMember? (some outer)).bind t'.memberName? = none := by
  obtain ⟨k, found, form⟩ := heldKind new held
  refine closedSilent closed ?_
  have kind : k ≠ .callExpression := by
    rintro rfl
    exact other (Option.some.inj form).symm
  simp [isKindAt, kindIs, found, kind]

/- A test that was handed to a wrapper is none any more. -/
theorem testedMoved (inside : t.Inside s) (bodiless : t.Bodiless s) :
    (t'.testedName? (v.slot s) = (t.testedName? s).map fun x => (x.1, v.subject x.2)) ∨
      t'.testedName? (v.slot s) = none ∧ ∀ x, t.testedName? s = some x → x.1 ∈ v.leaves := by
  have shows := (skipShows w old new shallow shallow' inside).1
  have plain := skipBodiless old bodiless
  rw [testedParts, testedParts]
  generalize t.skipParens s = core at shows plain
  generalize t'.skipParens (v.slot s) = core' at shows
  cases shows with
  | nothing => exact .inl rfl
  | bare inside => exact .inl (testMoved w old new shallow shallow' inside)
  | @closed i inside closed closed' =>
    have silent (kind : t.kind? i = some .expressionStatement) :
        (t.coreMember? (some i)).bind t.memberName? = none :=
      closedSilent closed (by rw [isKindAt, kindIs, kind]; rfl)
    have shape := w.wraps i inside
    generalize around : v.wrapping i = x at shape
    have outer : v.outer i = x.outer := congrArg Wrapping.outer around
    rw [outer] at closed' ⊢
    cases shape with
    | bare => exact .inl (testMoved w old new shallow shallow' inside)
    | statement kind choice =>
      obtain ⟨held, _, _⟩ := choice
      left
      rw [outerSilent new closed' held (by simp [Payload.form]), silent kind]
      rfl
    | braced kind held _ _ =>
      left
      rw [outerSilent new closed' held (by simp [Payload.form]), silent kind]
      rfl
    | body _ parent function _ => exact absurd function (plain i rfl _ _ parent)
    | @leaf _ _ _ wrapper site named kind held args alone =>
      right
      have full : t'.coreMember? (some wrapper) = none := by
        simp [coreMember?, isKindAt, kindIs, kind, call?, payload?, held, args, alone]
      rw [full]
      refine ⟨rfl, fun x tested => ?_⟩
      rw [testSite closed tested site]
      exact named
    | parens enclosed =>
      have layer := closed'.layer
      simp [parensInner?, parenthesized?, payload?, enclosed.held] at layer

omit w new shallow shallow' in
theorem testedHolds {x : String × Subject} (tested : t.testedName? s = some x) :
    t.Holds x.2 := by
  rw [testedParts] at tested
  obtain ⟨member, _, named⟩ := Option.bind_eq_some_iff.mp tested
  unfold memberName? at named
  split at named
  · obtain ⟨a, accessed, named⟩ := Option.bind_eq_some_iff.mp named
    obtain ⟨name, _, named⟩ := Option.bind_eq_some_iff.mp named
    cases named
    exact (accessInside old (accessHeld accessed)).1
  · obtain ⟨name, _, rfl⟩ := Option.map_eq_some_iff.mp named
    trivial

theorem literalMoved (inside : t.Inside s) : t'.booleanLiteral? (v.slot s) = t.booleanLiteral? s := by
  have shows := (skipShows w old new shallow shallow' inside).1
  unfold booleanLiteral?
  rcases kindShown w shows with same | ⟨other, other'⟩
  · rw [same]
  · split <;> split <;> simp_all

end Tree

/-! ### Conditions -/

namespace ConditionMatcher

/- A matcher for the old tree and one for the new tree that ask for the same. -/
structure Follows (v : Move) (m m' : ConditionMatcher) : Prop where
  wrapped : m.tree.Wrapped m'.tree v
  old : m.tree.Forest
  new : m'.tree.Forest
  shallow : m.tree.Shallow
  shallow' : m'.tree.Shallow
  predicates : m'.predicates = m.predicates
  keys : ∀ o, m.tree.Holds o →
    (m'.tree.keyOf? (v.subject o) = some m'.key ↔ m.tree.keyOf? o = some m.key)
  apart : ∀ p ∈ m.predicates, p.name ∉ v.leaves

variable {v : Move} {m m' : ConditionMatcher} {s : Slot} {value : Bool}

theorem predicateParts (m : ConditionMatcher) (s : Slot) :
    m.predicate? s = (m.tree.testedName? s).bind fun x =>
      (m.predicates.find? (·.name == x.1)).bind fun p =>
        if m.tree.keyOf? x.2 = some m.key then some p else none := by
  unfold predicate?
  cases m.tree.testedName? s with
  | none => rfl
  | some x =>
    simp only [Option.bind_eq_bind, Option.bind_some]
    cases m.predicates.find? (·.name == x.1) with
    | none => rfl
    | some p => cases m.tree.keyOf? x.2 <;> simp

theorem predicateMoved (follows : m.Follows v m') (inside : m.tree.Inside s)
    (bodiless : m.tree.Bodiless s) : m'.predicate? (v.slot s) = m.predicate? s := by
  rw [predicateParts, predicateParts]
  rcases Tree.testedMoved follows.wrapped follows.old follows.new follows.shallow follows.shallow'
    inside bodiless with
    same | ⟨none, leaves⟩
  · rw [same, follows.predicates]
    cases tested : m.tree.testedName? s with
    | none => rfl
    | some x =>
      have key := follows.keys x.2 (Tree.testedHolds follows.old tested)
      simp only [Option.map_some, Option.bind_some, key]
  · rw [none]
    cases tested : m.tree.testedName? s with
    | none => rfl
    | some x =>
      have unknown : m.predicates.find? (·.name == x.1) = .none := by
        refine List.find?_eq_none.mpr fun p own same => follows.apart p own ?_
        rw [beq_iff_eq.mp same]
        exact leaves x tested
      simp [unknown]

theorem testStep {limit : Nat} {core : Slot} (arrived : m.tree.skipParens s = core)
    (again : m.tree.skipParens core = core)
    (operator : ∀ u, m.tree.payload? core ≠ some (.unary u))
    (junction : ∀ b, m.tree.payload? core ≠ some (.binary b)) :
    m.impliesSafe (limit + 1) s value = (m.predicate? s).any (·.safeWhen == value) := by
  rw [impliesSafe, predicateCore (arrived.trans again.symm), arrived]
  dsimp only
  split
  · exact absurd ‹_› (operator _)
  · exact absurd ‹_› (junction _)
  · rfl

theorem operatorStep {limit : Nat} {core : Slot} {u : Unary} (arrived : m.tree.skipParens s = core)
    (held : m.tree.payload? core = some (.unary u)) :
    m.impliesSafe (limit + 1) s value = (m.tree.isKind core .prefixUnary &&
      u.op == .token (.punct .bang) && m.impliesSafe limit u.operand (!value)) := by
  simp [impliesSafe, arrived, held]

theorem impliesMoved (follows : m.Follows v m') (limit : Nat) (inside : m.tree.Inside s)
    (bodiless : m.tree.Bodiless s) :
    m'.impliesSafe limit (v.slot s) value = m.impliesSafe limit s value := by
  induction limit generalizing s value with
  | zero => rfl
  | succ limit ih =>
    have shows := (Tree.skipShows follows.wrapped follows.old follows.new follows.shallow
      follows.shallow' inside).1
    have again := Tree.skipAgain follows.old follows.shallow inside
    have again' := Tree.skipAgain follows.new follows.shallow'
      (Tree.insideMoved follows.wrapped follows.old follows.new inside)
    have same := predicateMoved follows inside bodiless
    generalize arrived : m.tree.skipParens s = core at shows again
    generalize arrived' : m'.tree.skipParens (v.slot s) = core' at shows again'
    have test (operator : ∀ u, m.tree.payload? core ≠ some (.unary u))
        (junction : ∀ b, m.tree.payload? core ≠ some (.binary b))
        (operator' : ∀ u, m'.tree.payload? core' ≠ some (.unary u))
        (junction' : ∀ b, m'.tree.payload? core' ≠ some (.binary b)) :
        m'.impliesSafe (limit + 1) (v.slot s) value = m.impliesSafe (limit + 1) s value := by
      rw [testStep arrived again operator junction, testStep arrived' again' operator' junction', same]
    cases shows with
    | nothing => exact test nofun nofun nofun nofun
    | closed _ closed closed' =>
      exact test closed.operator closed.junction closed'.operator closed'.junction
    | @bare i inside =>
      cases held : m.tree.payload? (some i) with
      | none =>
        have held' : m'.tree.payload? (some (v.inner i)) = none :=
          Tree.movedAbsent follows.wrapped inside held
        exact test (by simp [held]) (by simp [held]) (by simp [held']) (by simp [held'])
      | some p =>
        obtain ⟨q, held', alike, _⟩ := Tree.movedHeld follows.wrapped held
        have held' : m'.tree.payload? (some (v.inner i)) = some q := held'
        cases alike with
        | @unary u =>
          have operand : m'.impliesSafe limit (v.slot u.operand) (!value) =
              m.impliesSafe limit u.operand (!value) :=
            ih (Tree.slotInside follows.old held List.mem_cons_self)
              (Tree.ownBodiless follows.old held List.mem_cons_self (by simp))
          rw [operatorStep arrived held, operatorStep arrived' held', Tree.isKindAt, Tree.isKindAt,
            Tree.kindIsMoved follows.wrapped inside]
          exact congrArg (_ && ·) operand
        | @binary b =>
          have own : b.left ∈ (Payload.binary b).slots ∧ b.right ∈ (Payload.binary b).slots := by
            simp [Payload.slots]
          have part {child : Slot} (own : child ∈ (Payload.binary b).slots) :
              (∀ x, m'.impliesSafe limit (v.slot child) x = m.impliesSafe limit child x) ∧
                m'.tree.booleanLiteral? (v.slot child) = m.tree.booleanLiteral? child := by
            have inside := Tree.slotInside follows.old held own
            exact ⟨fun x => ih inside (Tree.ownBodiless follows.old held own (by simp)),
              Tree.literalMoved follows.wrapped follows.old follows.new follows.shallow
                follows.shallow' inside⟩
          obtain ⟨left, leftLiteral⟩ := part own.1
          obtain ⟨right, rightLiteral⟩ := part own.2
          unfold Move.slot at left right leftLiteral rightLiteral
          rw [impliesSafe, impliesSafe, arrived, arrived']
          dsimp only
          rw [held, held']
          simp only [left, right, leftLiteral, rightLiteral]
        | other form unread =>
          have unary : ∀ {r : Payload}, r.form = p.form → ∀ u, some r ≠ some (.unary u) := by
            rintro r same u ⟨⟩
            rw [← same] at unread
            cases unread
          have binary : ∀ {r : Payload}, r.form = p.form → ∀ b, some r ≠ some (.binary b) := by
            rintro r same b ⟨⟩
            rw [← same] at unread
            cases unread
          rw [held, held'] at test
          exact test (unary rfl) (binary rfl) (unary form) (binary form)
        | _ => exact test (by simp [held]) (by simp [held]) (by simp [held']) (by simp [held'])

end ConditionMatcher
end CallGuard
