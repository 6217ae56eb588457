import CallGuard.Rule.Basic
import CallGuard.Text.CharClass
import CallGuard.Tree.Walk

/-! Conditions that make a subject safe, by being true or by being false. Only the shape of the
condition counts. The subject of a test has to be the subject in question before the name of the
test counts at all, so `a.isOpen` says nothing about `b`. -/
namespace CallGuard

/-- References and conditions nested deeper than this are not followed. -/
def maxReferenceDepth : Nat := 256

/-- What a guard has to test: the `this` of a bare call, or an expression. -/
inductive Subject
  | implicitThis
  | expr (s : Slot)
  deriving DecidableEq, Repr

/-- Subjects are the same when their keys are: the names of a reference such as `this.a.b`, or
else the text without blanks. -/
inductive SubjectKey
  | reference (names : List String)
  | text (chars : List Char)
  deriving DecidableEq, Repr

namespace Tree

/-- The names of a reference, last first. -/
def referenceNames? (t : Tree) : (limit : Nat) → Slot → Option (List String)
  | 0, _ => none
  | limit + 1, s =>
    let s := t.skipParens s
    match t.kind? =<< s with
    | some (.token (.word .thisWord)) => some ["this"]
    | some (.token .identifier) => (t.identifier? s).map ([·])
    | some .propertyAccess => do
      let access ← t.access? s
      let name ← t.identifier? access.name
      let names ← t.referenceNames? limit access.object
      some (name :: names)
    | _ => none

/-- `this.a.b` as its names in order. Optional accesses count as plain ones. -/
def reference? (t : Tree) (s : Slot) : Option (List String) :=
  (t.referenceNames? maxReferenceDepth s).map List.reverse

/-- The text of an expression without blanks; nothing when there is none left. -/
def bareText? (t : Tree) (s : Slot) : Option (List Char) := do
  let i ← t.skipParens s
  let text ← t.textAt? i
  let text := text.filter fun c => !isUnicodeSpace c
  if text.isEmpty then none else some text

def subjectKey? (t : Tree) (s : Slot) : Option SubjectKey :=
  match t.reference? s with
  | some names => some (.reference names)
  | none => (t.bareText? s).map .text

def keyOf? (t : Tree) : Subject → Option SubjectKey
  | .implicitThis => some (.reference ["this"])
  | .expr s => t.subjectKey? s

def booleanLiteral? (t : Tree) (s : Slot) : Option Bool :=
  match t.kind? =<< t.skipParens s with
  | some (.token (.word .trueWord)) => some true
  | some (.token (.word .falseWord)) => some false
  | _ => none

/-- The callee of a call without arguments, and any other expression itself. Nothing for a call
with arguments. -/
def testedMember? (t : Tree) (s : Slot) : Option Slot :=
  let s := t.skipParens s
  if t.isKind s .callExpression then do
    let call ← t.call? s
    if call.args.any fun args => !args.items.isEmpty then none else some (t.skipParens call.callee)
  else some s

/-- The name that is tested and the object it is tested on; without an object, `this` is meant. -/
def testedName? (t : Tree) (s : Slot) : Option (String × Subject) := do
  let member ← t.testedMember? s
  if t.isKind member .propertyAccess then
    let access ← t.access? member
    let name ← t.identifier? access.name
    some (name, .expr access.object)
  else
    let name ← t.identifier? member
    some (name, .implicitThis)

end Tree

/-- The predicates that count, and the key of what they have to be tested on. -/
structure ConditionMatcher where
  tree : Tree
  key : SubjectKey
  predicates : List Predicate

namespace ConditionMatcher

/-- `subject.p`, `subject?.p`, `subject.p()`, and `p` or `p()` when the subject is `this`. -/
def predicate? (m : ConditionMatcher) (s : Slot) : Option Predicate := do
  let (name, object) ← m.tree.testedName? s
  let predicate ← m.predicates.find? (·.name == name)
  let key ← m.tree.keyOf? object
  if key = m.key then some predicate else none

/-- Whether the subject is safe as soon as the expression has the given value. -/
def impliesSafe (m : ConditionMatcher) : (limit : Nat) → Slot → (value : Bool) → Bool
  | 0, _, _ => false
  | limit + 1, s, value =>
    let s := m.tree.skipParens s
    let compared (left right : Slot) (equal : Bool) : Bool :=
      match m.tree.booleanLiteral? right, m.tree.booleanLiteral? left with
      | some b, _ => m.impliesSafe limit left (equal == b)
      | none, some b => m.impliesSafe limit right (equal == b)
      | none, none => false
    match m.tree.payload? s with
    | some (.unary u) =>
      m.tree.isKind s .prefixUnary && u.op == .token (.punct .bang) &&
        m.impliesSafe limit u.operand (!value)
    | some (.binary b) =>
      match b.op, value with
      | .token (.punct .ampersandAmpersand), true | .token (.punct .barBar), false =>
        m.impliesSafe limit b.left value || m.impliesSafe limit b.right value
      | .token (.punct .ampersandAmpersand), false | .token (.punct .barBar), true =>
        m.impliesSafe limit b.left value && m.impliesSafe limit b.right value
      | .token (.punct .equalEqual), _ | .token (.punct .equalEqualEqual), _ =>
        compared b.left b.right value
      | .token (.punct .bangEqual), _ | .token (.punct .bangEqualEqual), _ =>
        compared b.left b.right (!value)
      | _, _ => false
    | _ => (m.predicate? s).any (·.safeWhen == value)

/-- The subject is safe when the condition is true. -/
def affirms (m : ConditionMatcher) (condition : Slot) : Bool :=
  m.impliesSafe (maxReferenceDepth + 1) condition true

/-- The subject is safe when the condition is false. -/
def denies (m : ConditionMatcher) (condition : Slot) : Bool :=
  m.impliesSafe (maxReferenceDepth + 1) condition false

end ConditionMatcher

namespace Tree

/-- The matcher for a subject, unless the subject has no key. -/
def matcher? (t : Tree) (subject : Subject) (predicates : List Predicate) :
    Option ConditionMatcher :=
  (t.keyOf? subject).map fun key => ⟨t, key, predicates⟩

/-- The test that a fix writes: `!this.isClosed`, `mounted`, `sink.isOpen`. -/
def conditionText (t : Tree) (subject : Subject) (p : Predicate) : String :=
  let bang := if p.safeWhen then "" else "!"
  match subject with
  | .implicitThis => bang ++ p.name
  | .expr s =>
    let receiver := match t.textAt? =<< s with
      | some text =>
        String.ofList ((text.dropWhile isUnicodeSpace).reverse.dropWhile isUnicodeSpace).reverse
      | none => "this"
    bang ++ receiver ++ "." ++ p.name

end Tree

end CallGuard
