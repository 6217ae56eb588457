import CallGuard.Analysis.Condition

/-! Conditions as boolean formulas, apart from how they are searched. An atom is a place in a tree;
each of its occurrences may have a value of its own. -/
namespace CallGuard

inductive Formula
  | atom (s : Slot)
  | neg (φ : Formula)
  | conj (φ ψ : Formula)
  | disj (φ ψ : Formula)
  | compare (equal literal : Bool) (φ : Formula)

namespace Formula

def depth : Formula → Nat
  | atom _ => 0
  | neg φ | compare _ _ φ => φ.depth + 1
  | conj φ ψ | disj φ ψ => max φ.depth ψ.depth + 1

/- A value for every occurrence of an atom. -/
def Valuation : Formula → Type
  | atom _ => Bool
  | neg φ | compare _ _ φ => φ.Valuation
  | conj φ ψ | disj φ ψ => φ.Valuation × ψ.Valuation

def eval : (φ : Formula) → φ.Valuation → Bool
  | atom _, v => v
  | neg φ, v => !φ.eval v
  | conj φ ψ, v => φ.eval v.1 && ψ.eval v.2
  | disj φ ψ, v => φ.eval v.1 || ψ.eval v.2
  | compare equal literal φ, v => (φ.eval v == literal) == equal

/- Some safe test among the occurrences has its safe value. -/
def Meets (m : ConditionMatcher) : (φ : Formula) → φ.Valuation → Prop
  | atom s, v => ∃ p, m.predicate? s = some p ∧ v = p.safeWhen
  | neg φ, v | compare _ _ φ, v => φ.Meets m v
  | conj φ ψ, v | disj φ ψ, v => φ.Meets m v.1 ∨ ψ.Meets m v.2

def Entails (m : ConditionMatcher) (φ : Formula) (value : Bool) : Prop :=
  ∀ v, φ.eval v = value → φ.Meets m v

/- The entailment as it is computed: a junction needs one side where its value fixes both sides,
and both sides where one of them may be anything. -/
def forces (m : ConditionMatcher) : Formula → Bool → Bool
  | atom s, value => (m.predicate? s).any (·.safeWhen == value)
  | neg φ, value => φ.forces m (!value)
  | conj φ ψ, true => φ.forces m true || ψ.forces m true
  | conj φ ψ, false => φ.forces m false && ψ.forces m false
  | disj φ ψ, true => φ.forces m true && ψ.forces m true
  | disj φ ψ, false => φ.forces m false || ψ.forces m false
  | compare equal literal φ, value => φ.forces m ((value == equal) == literal)

variable {m : ConditionMatcher} {φ ψ : Formula} {value : Bool}

theorem evalConj (v : φ.Valuation) (w : ψ.Valuation) :
    (conj φ ψ).eval (v, w) = (φ.eval v && ψ.eval w) := rfl

theorem evalDisj (v : φ.Valuation) (w : ψ.Valuation) :
    (disj φ ψ).eval (v, w) = (φ.eval v || ψ.eval w) := rfl

theorem compareValue (equal literal x : Bool) :
    ((x == literal) == equal) = value ↔ x = ((value == equal) == literal) := by
  cases x <;> cases literal <;> cases equal <;> cases value <;> decide

/- No formula obliges its safe tests to have their safe values. -/
theorem avoiding (m : ConditionMatcher) (φ : Formula) : ∃ v, ¬ φ.Meets m v := by
  induction φ with
  | atom s =>
    cases test : m.predicate? s with
    | none => exact ⟨true, fun ⟨p, found, _⟩ => by rw [test] at found; cases found⟩
    | some p =>
      refine ⟨!p.safeWhen, fun ⟨q, found, same⟩ => ?_⟩
      rw [test] at found
      cases found
      exact (Bool.not_eq_self _).mp same
  | neg φ ih | compare _ _ φ ih => exact ih
  | conj φ ψ left right | disj φ ψ left right =>
    obtain ⟨v, hv⟩ := left
    obtain ⟨w, hw⟩ := right
    exact ⟨(v, w), fun met => met.elim hv hw⟩

theorem forcesEntails (φ : Formula) (value : Bool) (h : φ.forces m value = true) :
    φ.Entails m value := by
  induction φ generalizing value with
  | atom s =>
    intro v same
    obtain ⟨p, found, safe⟩ := (Option.any_eq_true _ _).mp h
    exact ⟨p, found, same.trans (eq_of_beq safe).symm⟩
  | neg φ ih =>
    intro v same
    refine ih (!value) h v ?_
    rw [← same]
    exact (Bool.not_not _).symm
  | conj φ ψ left right =>
    rintro ⟨v, w⟩ same
    cases value with
    | true =>
      obtain ⟨hv, hw⟩ := Bool.and_eq_true_iff.mp same
      rcases Bool.or_eq_true_iff.mp h with one | one
      · exact .inl (left true one v hv)
      · exact .inr (right true one w hw)
    | false =>
      obtain ⟨both, both'⟩ := Bool.and_eq_true_iff.mp h
      rcases Bool.and_eq_false_iff.mp same with hv | hw
      · exact .inl (left false both v hv)
      · exact .inr (right false both' w hw)
  | disj φ ψ left right =>
    rintro ⟨v, w⟩ same
    cases value with
    | true =>
      obtain ⟨both, both'⟩ := Bool.and_eq_true_iff.mp h
      rcases Bool.or_eq_true_iff.mp same with hv | hw
      · exact .inl (left true both v hv)
      · exact .inr (right true both' w hw)
    | false =>
      obtain ⟨hv, hw⟩ := Bool.or_eq_false_iff.mp same
      rcases Bool.or_eq_true_iff.mp h with one | one
      · exact .inl (left false one v hv)
      · exact .inr (right false one w hw)
  | compare equal literal φ ih =>
    intro v same
    exact ih _ h v ((compareValue equal literal _).mp same)

/- Where nothing forces a safe value, some values of the atoms avoid them all. -/
theorem countermodel (φ : Formula) (value : Bool) (h : φ.forces m value = false) :
    ∃ v, φ.eval v = value ∧ ¬ φ.Meets m v := by
  induction φ generalizing value with
  | atom s =>
    refine ⟨value, rfl, fun ⟨p, found, same⟩ => ?_⟩
    have no : (p.safeWhen == value) = false := by simpa [forces, found] using h
    rw [same] at no
    exact absurd no (by simp)
  | neg φ ih =>
    obtain ⟨v, same, avoids⟩ := ih (!value) h
    exact ⟨v, (congrArg (!·) same).trans (Bool.not_not _), avoids⟩
  | conj φ ψ left right =>
    cases value with
    | true =>
      obtain ⟨one, two⟩ := Bool.or_eq_false_iff.mp h
      obtain ⟨v, hv, avoids⟩ := left true one
      obtain ⟨w, hw, avoids'⟩ := right true two
      exact ⟨(v, w), by rw [evalConj, hv, hw]; rfl, fun met => met.elim avoids avoids'⟩
    | false =>
      rcases Bool.and_eq_false_iff.mp h with one | two
      · obtain ⟨v, hv, avoids⟩ := left false one
        obtain ⟨w, avoids'⟩ := avoiding m ψ
        exact ⟨(v, w), by rw [evalConj, hv]; rfl, fun met => met.elim avoids avoids'⟩
      · obtain ⟨v, avoids⟩ := avoiding m φ
        obtain ⟨w, hw, avoids'⟩ := right false two
        exact ⟨(v, w), by rw [evalConj, hw, Bool.and_false], fun met => met.elim avoids avoids'⟩
  | disj φ ψ left right =>
    cases value with
    | true =>
      rcases Bool.and_eq_false_iff.mp h with one | two
      · obtain ⟨v, hv, avoids⟩ := left true one
        obtain ⟨w, avoids'⟩ := avoiding m ψ
        exact ⟨(v, w), by rw [evalDisj, hv]; rfl, fun met => met.elim avoids avoids'⟩
      · obtain ⟨v, avoids⟩ := avoiding m φ
        obtain ⟨w, hw, avoids'⟩ := right true two
        exact ⟨(v, w), by rw [evalDisj, hw, Bool.or_true], fun met => met.elim avoids avoids'⟩
    | false =>
      obtain ⟨one, two⟩ := Bool.or_eq_false_iff.mp h
      obtain ⟨v, hv, avoids⟩ := left false one
      obtain ⟨w, hw, avoids'⟩ := right false two
      exact ⟨(v, w), by rw [evalDisj, hv, hw]; rfl, fun met => met.elim avoids avoids'⟩
  | compare equal literal φ ih =>
    obtain ⟨v, same, avoids⟩ := ih _ h
    exact ⟨v, (compareValue equal literal _).mpr same, avoids⟩

theorem forcesExact (φ : Formula) (value : Bool) :
    φ.forces m value = true ↔ φ.Entails m value := by
  refine ⟨forcesEntails φ value, fun entails => ?_⟩
  cases computed : φ.forces m value with
  | true => rfl
  | false =>
    obtain ⟨v, same, avoids⟩ := countermodel φ value computed
    exact absurd (entails v same) avoids

end Formula
end CallGuard
