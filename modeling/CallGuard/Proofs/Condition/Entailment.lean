import CallGuard.Proofs.Condition.Reading

/-! The search of conditions computes entailment: a condition makes a subject safe exactly when
every assignment that gives the condition its value gives some safe test its safe value. -/
namespace CallGuard

/-! ### What tests look like -/

namespace Tree
variable {t : Tree} {s : Slot}

def Testable (t : Tree) (s : Slot) : Prop :=
  (∃ c, t.payload? s = some (.call c)) ∨ (∃ a, t.payload? s = some (.access a)) ∨
    ∃ name, t.payload? s = some (.identifier name)

theorem callHeld {c : Call} (h : t.call? s = some c) : t.payload? s = some (.call c) := by
  unfold call? at h
  split at h <;> cases h
  assumption

theorem accessHeld {a : Access} (h : t.access? s = some a) : t.payload? s = some (.access a) := by
  unfold access? at h
  split at h <;> cases h
  assumption

theorem identifierHeld {name : String} (h : t.identifier? s = some name) :
    t.payload? s = some (.identifier name) := by
  unfold identifier? at h
  split at h <;> cases h
  assumption

theorem testedForm {x : String × Subject} (found : t.testedName? s = some x) :
    t.Testable (t.skipParens s) := by
  obtain ⟨member, tested, named⟩ := Option.bind_eq_some_iff.mp found
  simp only [testedMember?] at tested
  split at tested
  · obtain ⟨c, called, _⟩ := Option.bind_eq_some_iff.mp tested
    exact .inl ⟨c, callHeld called⟩
  · cases tested
    split at named
    · obtain ⟨a, accessed, _⟩ := Option.bind_eq_some_iff.mp named
      exact .inr (.inl ⟨a, accessHeld accessed⟩)
    · obtain ⟨name, identified, _⟩ := Option.bind_eq_some_iff.mp named
      exact .inr (.inr ⟨name, identifierHeld identified⟩)

theorem testableBare (test : t.Testable s) : t.parensInner? s = none := by
  rcases test with ⟨_, h⟩ | ⟨_, h⟩ | ⟨_, h⟩ <;> simp [parensInner?, parenthesized?, operand?, h]

/- Only the core of a place counts for the test that it is. -/
theorem testedNameSame {s other : Slot} (same : t.skipParens s = t.skipParens other) :
    t.testedName? s = t.testedName? other := by
  unfold testedName? testedMember?
  rw [same]

end Tree

namespace ConditionMatcher
variable {m : ConditionMatcher} {run limit : Nat} {s core : Slot} {value : Bool}

theorem predicateForm {p : Predicate} (found : m.predicate? s = some p) :
    m.tree.Testable (m.tree.skipParens s) := by
  obtain ⟨x, tested, _⟩ := Option.bind_eq_some_iff.mp found
  exact Tree.testedForm tested

theorem predicateCore {other : Slot} (same : m.tree.skipParens s = m.tree.skipParens other) :
    m.predicate? s = m.predicate? other := by
  unfold predicate?
  rw [Tree.testedNameSame same]

/-! ### One step of the search, at a core that is reached -/

theorem untested (bare : m.tree.parensInner? core = none) (no : ¬ m.tree.Testable core) :
    m.predicate? core = none := by
  cases found : m.predicate? core with
  | none => rfl
  | some p =>
    have test := predicateForm found
    rw [Tree.skipParensBare bare] at test
    exact absurd test no

theorem atomStep (arrived : m.tree.skipParens s = core) (bare : m.tree.parensInner? core = none)
    (plain : m.tree.Plain core) :
    m.impliesSafe (limit + 1) s value = (m.predicate? core).any (·.safeWhen == value) := by
  rw [impliesSafe]
  dsimp only
  rw [arrived]
  cases held : m.tree.payload? core with
  | none => rfl
  | some p =>
    cases p with
    | unary u =>
      have no : m.predicate? core = none := untested bare (by simp [Tree.Testable, held])
      cases kind : m.tree.isKind core .prefixUnary with
      | false => simp [no]
      | true => simp [no, plain.negation kind u held]
    | binary b =>
      have no : m.predicate? core = none := untested bare (by simp [Tree.Testable, held])
      have nothing (s : Slot) (no : ∀ run x, ¬ m.tree.Literal run s x) :
          m.tree.booleanLiteral? s = none :=
        Option.eq_none_iff_forall_ne_some.mpr fun x found => no _ x (Tree.literalFound found)
      have silent (equal : (equality? b.op).isSome) :
          m.tree.booleanLiteral? b.left = none ∧ m.tree.booleanLiteral? b.right = none := by
        have apart := plain.comparison b held equal
        exact ⟨nothing _ fun run x => (apart run x).1, nothing _ fun run x => (apart run x).2⟩
      obtain ⟨notBoth, notEither⟩ := plain.junction b held
      dsimp only
      split
      all_goals simp_all [equality?]
    | _ => rfl

theorem negStep {u : Unary} (arrived : m.tree.skipParens s = core)
    (unary : m.tree.isKind core .prefixUnary) (held : m.tree.payload? core = some (.unary u))
    (op : u.op = .token (.punct .bang)) :
    m.impliesSafe (limit + 1) s value = m.impliesSafe limit u.operand (!value) := by
  simp [impliesSafe, arrived, held, unary, op]

theorem conjStep {b : Binary} (arrived : m.tree.skipParens s = core)
    (held : m.tree.payload? core = some (.binary b))
    (op : b.op = .token (.punct .ampersandAmpersand)) :
    m.impliesSafe (limit + 1) s value =
      if value then m.impliesSafe limit b.left true || m.impliesSafe limit b.right true
      else m.impliesSafe limit b.left false && m.impliesSafe limit b.right false := by
  cases value <;> simp [impliesSafe, arrived, held, op]

theorem disjStep {b : Binary} (arrived : m.tree.skipParens s = core)
    (held : m.tree.payload? core = some (.binary b)) (op : b.op = .token (.punct .barBar)) :
    m.impliesSafe (limit + 1) s value =
      if value then m.impliesSafe limit b.left true && m.impliesSafe limit b.right true
      else m.impliesSafe limit b.left false || m.impliesSafe limit b.right false := by
  cases value <;> simp [impliesSafe, arrived, held, op]

theorem compareStep {b : Binary} {equal : Bool} (arrived : m.tree.skipParens s = core)
    (held : m.tree.payload? core = some (.binary b)) (op : equality? b.op = some equal) :
    m.impliesSafe (limit + 1) s value =
      match m.tree.booleanLiteral? b.right, m.tree.booleanLiteral? b.left with
      | some x, _ => m.impliesSafe limit b.left ((value == equal) == x)
      | none, some x => m.impliesSafe limit b.right ((value == equal) == x)
      | none, none => false := by
  unfold equality? at op
  split at op <;> cases op <;> rename_i same <;>
    cases right : m.tree.booleanLiteral? b.right <;> cases left : m.tree.booleanLiteral? b.left <;>
      simp [impliesSafe, arrived, held, same, right, left]

/- A run of layers that is too long to reach the core is a test of the core, or nothing. -/
theorem lateStep (strips : m.tree.Strips run s core)
    (h : m.impliesSafe (limit + 1) s value = true) : m.tree.skipParens s = core ∨
      m.tree.Testable core ∧ (m.predicate? core).any (·.safeWhen == value) = true := by
  have rest := Tree.skipParensStrips strips
  rcases Tree.stripsReached rest with arrived | ⟨inner, around⟩
  · exact .inl arrived
  right
  have test : (m.predicate? (m.tree.skipParens s)).any (·.safeWhen == value) = true := by
    rcases Tree.layerHeld around with held | held <;> simpa [impliesSafe, held] using h
  obtain ⟨p, found, safe⟩ := (Option.any_eq_true _ _).mp test
  have form := predicateForm found
  have inside := Tree.stripsUnwrap maxAscent (m.tree.skipParens s) (Tree.testableBare form)
  have reached : m.tree.skipParens (m.tree.skipParens s) = core :=
    Tree.stripsSame inside rest
  rw [reached] at form
  rw [predicateCore (reached.trans (Tree.skipParensBare (Tree.stripsBare strips)).symm)] at test
  exact ⟨form, test⟩

theorem connectiveStep (strips : m.tree.Strips run s core) (no : ¬ m.tree.Testable core)
    (h : m.impliesSafe limit s value = true) :
    ∃ less, limit = less + 1 ∧ m.tree.skipParens s = core := by
  cases limit with
  | zero => cases h
  | succ less =>
    refine ⟨less, rfl, ?_⟩
    rcases lateStep strips h with arrived | ⟨form, _⟩
    · exact arrived
    · exact absurd form no

theorem literalUnsafe {x : Bool} (literal : m.tree.Literal run s x) (limit : Nat) (value : Bool) :
    ¬ m.impliesSafe limit s value = true := by
  intro h
  obtain ⟨core, strips, word⟩ := literal
  have nothing := Tree.wordHolds word
  have no : ¬ m.tree.Testable core := by simp [Tree.Testable, nothing]
  have plain : m.tree.Plain core := ⟨by simp [nothing], by simp [nothing], by simp [nothing]⟩
  obtain ⟨less, rfl, arrived⟩ := connectiveStep strips no h
  rw [atomStep arrived (Tree.wordBare word) plain, untested (Tree.wordBare word) no] at h
  cases h

/-! ### The whole search -/

theorem safeForces {φ : Formula} (reads : m.tree.Reads run s φ)
    (h : m.impliesSafe limit s value = true) : φ.forces m value = true := by
  induction reads generalizing limit value with
  | atom strips plain =>
    cases limit with
    | zero => cases h
    | succ limit =>
      rcases lateStep strips h with arrived | ⟨_, test⟩
      · rwa [atomStep arrived (Tree.stripsBare strips) plain] at h
      · exact test
  | neg strips unary held op _ ih =>
    obtain ⟨less, rfl, arrived⟩ := connectiveStep strips (by simp [Tree.Testable, held]) h
    rw [negStep arrived unary held op] at h
    exact ih h
  | conj strips held op _ _ left right =>
    obtain ⟨less, rfl, arrived⟩ := connectiveStep strips (by simp [Tree.Testable, held]) h
    rw [conjStep arrived held op] at h
    cases value with
    | true => exact Bool.or_eq_true_iff.mpr ((Bool.or_eq_true_iff.mp h).imp left right)
    | false => exact Bool.and_eq_true_iff.mpr ((Bool.and_eq_true_iff.mp h).imp left right)
  | disj strips held op _ _ left right =>
    obtain ⟨less, rfl, arrived⟩ := connectiveStep strips (by simp [Tree.Testable, held]) h
    rw [disjStep arrived held op] at h
    cases value with
    | true => exact Bool.and_eq_true_iff.mpr ((Bool.and_eq_true_iff.mp h).imp left right)
    | false => exact Bool.or_eq_true_iff.mpr ((Bool.or_eq_true_iff.mp h).imp left right)
  | compareRight strips held op right _ left =>
    obtain ⟨less, rfl, arrived⟩ := connectiveStep strips (by simp [Tree.Testable, held]) h
    rw [compareStep arrived held op] at h
    split at h
    · rename_i found
      cases Tree.literalSame right (Tree.literalFound found)
      exact left h
    · exact absurd h (literalUnsafe right _ _)
    · cases h
  | compareLeft strips held op other literal _ right =>
    obtain ⟨less, rfl, arrived⟩ := connectiveStep strips (by simp [Tree.Testable, held]) h
    rw [compareStep arrived held op] at h
    split at h
    · rename_i found
      exact absurd (Tree.literalFound found) (other _ _)
    · rename_i found
      cases Tree.literalSame literal (Tree.literalFound found)
      exact right h
    · cases h

theorem forcesSafe {φ : Formula} (reads : m.tree.Reads run s φ) (short : run ≤ maxAscent)
    (shallow : φ.depth < limit) (h : φ.forces m value = true) :
    m.impliesSafe limit s value = true := by
  induction reads generalizing limit value with
  | atom strips plain =>
    obtain ⟨less, rfl⟩ := Nat.exists_eq_add_of_lt shallow
    rwa [atomStep (Tree.skipParensCore strips short) (Tree.stripsBare strips) plain]
  | @neg s core u φ strips unary held op _ ih =>
    obtain ⟨less, rfl⟩ := Nat.exists_eq_add_of_lt shallow
    have lower : φ.depth < φ.depth + 1 + less := by omega
    rw [negStep (Tree.skipParensCore strips short) unary held op]
    exact ih lower h
  | @conj s core b φ ψ strips held op _ _ left right =>
    obtain ⟨less, rfl⟩ := Nat.exists_eq_add_of_lt shallow
    rw [conjStep (Tree.skipParensCore strips short) held op]
    have lower : φ.depth < max φ.depth ψ.depth + 1 + less := by omega
    have lower' : ψ.depth < max φ.depth ψ.depth + 1 + less := by omega
    cases value with
    | true =>
      exact Bool.or_eq_true_iff.mpr ((Bool.or_eq_true_iff.mp h).imp (left lower) (right lower'))
    | false =>
      exact Bool.and_eq_true_iff.mpr ((Bool.and_eq_true_iff.mp h).imp (left lower) (right lower'))
  | @disj s core b φ ψ strips held op _ _ left right =>
    obtain ⟨less, rfl⟩ := Nat.exists_eq_add_of_lt shallow
    rw [disjStep (Tree.skipParensCore strips short) held op]
    have lower : φ.depth < max φ.depth ψ.depth + 1 + less := by omega
    have lower' : ψ.depth < max φ.depth ψ.depth + 1 + less := by omega
    cases value with
    | true =>
      exact Bool.and_eq_true_iff.mpr ((Bool.and_eq_true_iff.mp h).imp (left lower) (right lower'))
    | false =>
      exact Bool.or_eq_true_iff.mpr ((Bool.or_eq_true_iff.mp h).imp (left lower) (right lower'))
  | @compareRight s core b equal x φ strips held op right _ left =>
    obtain ⟨less, rfl⟩ := Nat.exists_eq_add_of_lt shallow
    have lower : φ.depth < φ.depth + 1 + less := by omega
    rw [compareStep (Tree.skipParensCore strips short) held op, Tree.foundLiteral right short]
    exact left lower h
  | @compareLeft s core b equal x φ strips held op other literal _ right =>
    obtain ⟨less, rfl⟩ := Nat.exists_eq_add_of_lt shallow
    have lower : φ.depth < φ.depth + 1 + less := by omega
    have none : m.tree.booleanLiteral? b.right = none :=
      Option.eq_none_iff_forall_ne_some.mpr fun y found => other _ y (Tree.literalFound found)
    rw [compareStep (Tree.skipParensCore strips short) held op, none,
      Tree.foundLiteral literal short]
    exact right lower h

end ConditionMatcher

/- For every text, subject with a key, list of predicates and place in the tree. -/
theorem conditionEntailment (fileName : String) (text : List Char) (subject : Subject)
    (predicates : List Predicate) (condition : Slot) :
    let t := (Program.parse fileName text).tree
    ∀ m, t.matcher? subject predicates = some m →
      (∃ run φ, t.Reads run condition φ) ∧
      ∀ run φ, t.Reads run condition φ →
        (m.affirms condition = true → φ.Entails m true) ∧
        (m.denies condition = true → φ.Entails m false) ∧
        (run ≤ maxAscent → φ.depth ≤ maxReferenceDepth →
          (φ.Entails m true → m.affirms condition = true) ∧
          (φ.Entails m false → m.denies condition = true)) := by
  intro t m found
  obtain ⟨key, _, rfl⟩ := Option.map_eq_some_iff.mp found
  have forest := Program.treeForest fileName text
  refine ⟨?_, fun run φ reads => ⟨fun h => ?_, fun h => ?_, fun short shallow => ⟨?_, ?_⟩⟩⟩
  · obtain ⟨bound, below⟩ : ∃ bound, ∀ i ∈ condition, i < bound :=
      ⟨condition.getD 0 + 1, fun i own => by cases own; exact Nat.lt_succ_self _⟩
    exact Tree.readsExists forest bound condition below
  · exact Formula.forcesEntails φ true (ConditionMatcher.safeForces reads h)
  · exact Formula.forcesEntails φ false (ConditionMatcher.safeForces reads h)
  · intro entails
    have forced := (Formula.forcesExact φ true).mpr entails
    exact ConditionMatcher.forcesSafe reads short (Nat.lt_succ_of_le shallow) forced
  · intro entails
    have forced := (Formula.forcesExact φ false).mpr entails
    exact ConditionMatcher.forcesSafe reads short (Nat.lt_succ_of_le shallow) forced

/- The right side of the test speaks of the receiver of the call, and the left side does not. -/
theorem openSinkEntailed :
    let t := (Program.parse "f" "if (!x && a.open === true) a.add();".toList).tree
    ∃ m, t.matcher? (.expr (some 8)) [⟨"open", true⟩] = some m ∧ m.affirms (some 7) = true ∧
      m.denies (some 7) = false ∧ (∃ run φ, t.Reads run (some 7) φ) ∧
      ∀ run φ, t.Reads run (some 7) φ → φ.Entails m true := by
  intro t
  have found : ∃ m, t.matcher? (.expr (some 8)) [⟨"open", true⟩] = some m ∧
      m.affirms (some 7) = true ∧ m.denies (some 7) = false := by
    have computed : ((t.matcher? (.expr (some 8)) [⟨"open", true⟩]).any fun m =>
        m.affirms (some 7) && !m.denies (some 7)) = true := by decide +kernel
    obtain ⟨m, found, both⟩ := (Option.any_eq_true _ _).mp computed
    simp only [Bool.and_eq_true, Bool.not_eq_true'] at both
    exact ⟨m, found, both⟩
  obtain ⟨m, found, affirmed, denied⟩ := found
  obtain ⟨total, readings⟩ := conditionEntailment _ _ _ _ (some 7) m found
  exact ⟨m, found, affirmed, denied, total, fun run φ reads => (readings run φ reads).1 affirmed⟩

end CallGuard
