import CallGuard.Proofs.Condition.Entailment
import CallGuard.Proofs.Expression.Shape

/-! The condition that a fix writes tests the receiver of the call. Where it is read as a test of something,
it makes the receiver safe exactly if that something has the key of the receiver. A reference is read as the
names that it is spelled with, so behind a reference the condition is always right. -/
namespace CallGuard

namespace Tree

/- A test by name, of an object or of the `this` that a bare name stands for. -/
inductive Tests (t : Tree) (name : String) : Subject → Slot → Prop where
  | own {s} (carries : t.Carries s (.token .identifier) (some (.identifier name))) :
      Tests t name .implicitThis s
  | member {s a d optional} (carries : t.Carries s .propertyAccess (some (.access ⟨a, d, optional⟩)))
      (named : t.Carries d (.token .identifier) (some (.identifier name))) : Tests t name (.expr a) s

/- A test as a fix writes it: negated if the predicate is safe when it is false. -/
inductive Written (t : Tree) (p : Predicate) (object : Subject) : Slot → Prop where
  | plain {s} (safe : p.safeWhen = true) (tests : t.Tests p.name object s) : Written t p object s
  | negated {s a} (safe : p.safeWhen = false)
      (carries : t.Carries s .prefixUnary (some (.unary ⟨.token (.punct .bang), a⟩)))
      (tests : t.Tests p.name object a) : Written t p object s

variable {t : Tree} {s : Slot} {kind : NodeKind} {p : Payload}

theorem carriesPayload (carries : t.Carries s kind (some p)) (form : kind.form? = some p.form) :
    t.payload? s = some p := by
  obtain ⟨i, n, rfl, found, rfl, own⟩ := carries
  show t.payloadAt? i = some p
  rw [payloadAgreed found ?_, own]
  intro q held
  cases own.symm.trans held
  exact form

theorem carriesKind {payload? : Option Payload} (carries : t.Carries s kind payload?) :
    t.kind? =<< s = some kind := by
  obtain ⟨i, n, rfl, found, rfl, _⟩ := carries
  show (t.get? i).map (·.kind) = some n.kind
  rw [found]
  rfl

theorem carriesIs {payload? : Option Payload} (carries : t.Carries s kind payload?) (k : NodeKind) :
    t.isKind s k = (kind == k) := by
  obtain ⟨i, n, rfl, found, rfl, _⟩ := carries
  show (t.get? i).any (·.kind == k) = (n.kind == k)
  rw [found]
  rfl

theorem testablePlain (test : t.Testable s) : t.Plain s := by
  have noUnary (u : Unary) : t.payload? s ≠ some (.unary u) := by
    rcases test with ⟨_, held⟩ | ⟨_, held⟩ | ⟨_, held⟩ <;> simp [held]
  have noBinary (b : Binary) : t.payload? s ≠ some (.binary b) := by
    rcases test with ⟨_, held⟩ | ⟨_, held⟩ | ⟨_, held⟩ <;> simp [held]
  exact ⟨fun _ u held => absurd held (noUnary u), fun b held => absurd held (noBinary b),
    fun b held => absurd held (noBinary b)⟩

theorem testsNamed {name : String} {object : Subject} (tests : t.Tests name object s) :
    t.Testable s ∧ t.testedName? s = some (name, object) := by
  cases tests with
  | own carries =>
    have held := carriesPayload carries rfl
    have test : t.Testable s := .inr (.inr ⟨name, held⟩)
    refine ⟨test, ?_⟩
    simp [testedName?, testedMember?, skipParensBare (testableBare test), carriesIs carries, identifier?, held]
  | @member _ a d optional carries named =>
    have held := carriesPayload carries rfl
    have heldName := carriesPayload named rfl
    have test : t.Testable s := .inr (.inl ⟨_, held⟩)
    refine ⟨test, ?_⟩
    simp [testedName?, testedMember?, skipParensBare (testableBare test), carriesIs carries, identifier?,
      access?, held, heldName]

end Tree

namespace ConditionMatcher
variable {m : ConditionMatcher} {p : Predicate} {object : Subject} {s : Slot}

theorem testedStep {limit : Nat} {value : Bool} (alone : m.predicates = [p])
    (tests : m.tree.Tests p.name object s) : m.impliesSafe (limit + 1) s value = true ↔
      p.safeWhen = value ∧ m.tree.keyOf? object = some m.key := by
  obtain ⟨test, tested⟩ := Tree.testsNamed tests
  have bare := Tree.testableBare test
  rw [atomStep (Tree.skipParensBare bare) bare (Tree.testablePlain test), predicate?, tested]
  cases known : m.tree.keyOf? object with
  | none => simp [alone, known]
  | some key =>
    by_cases same : key = m.key
    · simp [alone, known, same]
    · simp [alone, known, same]

/- A written condition is affirmed exactly if what it tests has the key in question. -/
theorem writtenExact (alone : m.predicates = [p]) (written : m.tree.Written p object s) :
    m.affirms s = true ↔ m.tree.keyOf? object = some m.key := by
  cases written with
  | plain safe tests => exact (testedStep alone tests).trans (and_iff_right safe)
  | negated safe carries tests =>
    have held := Tree.carriesPayload carries rfl
    have bare : m.tree.parensInner? s = none := by
      simp [Tree.parensInner?, Tree.parenthesized?, Tree.operand?, held]
    have negated : m.tree.isKind s .prefixUnary = true := by
      rw [Tree.carriesIs carries]
      rfl
    rw [affirms, negStep (Tree.skipParensBare bare) negated held rfl]
    exact (testedStep alone tests).trans (and_iff_right safe)

end ConditionMatcher

namespace Expr
variable {t : Tree} {s c : Slot}

/- The names that a reference is spelled with, last first. -/
def names? : Expr → Option (List String)
  | .name n => some [n.text]
  | .constant ⟨.thisWord, _⟩ => some ["this"]
  | .access o _ w => o.names?.map (w.text :: ·)
  | _ => none

/- The test of a predicate on an expression. -/
def tested (e : Expr) (w : Word) (safeWhen : Bool) : Expr :=
  if safeWhen then .access e false w
  else .prefixed ⟨.punct .bang, by decide, by decide⟩ (.access e false w)

theorem namesBegin {e : Expr} {names : List String} (reference : e.names? = some names) : names ≠ [] := by
  unfold names? at reference
  split at reference
  · cases reference
    exact List.cons_ne_nil _ _
  · cases reference
    exact List.cons_ne_nil _ _
  · obtain ⟨_, _, rfl⟩ := Option.map_eq_some_iff.mp reference
    exact List.cons_ne_nil _ _
  · cases reference

theorem namesShown {e : Expr} {names : List String} {limit : Nat} (reference : e.names? = some names)
    (short : names.length ≤ limit) (shown : e.ShownIn t s) : t.referenceNames? limit s = some names := by
  induction limit generalizing e names s with
  | zero => exact absurd (List.length_eq_zero_iff.mp (Nat.le_zero.mp short)) (namesBegin reference)
  | succ limit ih =>
    unfold names? at reference
    split at reference
    · rename_i n
      cases reference
      have carries : t.Carries s (.token .identifier) (some (.identifier n.text)) := shown
      have held := Tree.carriesPayload carries rfl
      have bare := Tree.skipParensBare (Tree.testableBare (.inr (.inr ⟨_, held⟩)))
      simp [Tree.referenceNames?, bare, Tree.carriesKind carries, Tree.identifier?, held]
    · cases reference
      have kind := Tree.carriesKind (show t.Carries s (.token (.word .thisWord)) none from shown)
      simp [Tree.referenceNames?, Tree.skipParensBare (Tree.wordBare kind), kind]
    · rename_i o _ w
      obtain ⟨before, inner, rfl⟩ := Option.map_eq_some_iff.mp reference
      obtain ⟨a, d, carries, shown, name⟩ := shown
      have held := Tree.carriesPayload carries rfl
      have bare := Tree.skipParensBare (Tree.testableBare (.inr (.inl ⟨_, held⟩)))
      have further := ih inner (Nat.le_of_succ_le_succ short) shown
      simp [Tree.referenceNames?, bare, Tree.carriesKind carries, Tree.access?, held, Tree.identifier?,
        Tree.carriesPayload name rfl, further]
    · cases reference

/- Behind a reference the condition that a fix writes is affirmed. -/
theorem referenceAffirmed {e : Expr} {w : Word} {p : Predicate} {names : List String}
    (reference : e.names? = some names) (short : names.length ≤ maxReferenceDepth) (named : w.text = p.name)
    (shown : e.ShownIn t s) (written : (e.tested w p.safeWhen).ShownIn t c) :
    ∃ m, t.matcher? (.expr s) [p] = some m ∧ m.affirms c = true := by
  have key {s : Slot} (shown : e.ShownIn t s) : t.subjectKey? s = some (.reference names.reverse) := by
    rw [Tree.subjectKey?, Tree.reference?, namesShown reference short shown]
    rfl
  refine ⟨⟨t, .reference names.reverse, [p]⟩, ?_, ?_⟩
  · rw [Tree.matcher?, Tree.keyOf?, key shown]
    rfl
  · cases safe : p.safeWhen with
    | true =>
      rw [tested, safe, if_pos rfl] at written
      obtain ⟨o, d, carries, inner, name⟩ := written
      exact (ConditionMatcher.writtenExact rfl (.plain safe (.member carries (named ▸ name)))).mpr (key inner)
    | false =>
      rw [tested, safe, if_neg Bool.false_ne_true] at written
      obtain ⟨a, bang, o, d, carries, inner, name⟩ := written
      exact (ConditionMatcher.writtenExact rfl (.negated safe bang (.member carries (named ▸ name)))).mpr
        (key inner)

end Expr

/- No such condition stands behind `new Sink`: the `new` takes the member with it, and nothing is tested. -/
example :
    let t := (Program.parse "input.ts" "(new Sink);(!new Sink.isClosed);".toList).tree
    t.subjectKey? (some 2) = some (.text "newSink".toList) ∧ t.testedName? (some 7) = none := by
  decide +kernel

end CallGuard
