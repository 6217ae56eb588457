import CallGuard.Proofs.Condition.Formula
import CallGuard.Proofs.Parser.Program

/-! Which formula a condition is read as. Runs of parentheses and `!` count for nothing; a place
that is no connective is an atom, and so is a literal that nothing is compared with. -/
namespace CallGuard

/- Whether the operator asks for equality or for the opposite. -/
def equality? : NodeKind → Option Bool
  | .token (.punct .equalEqual) | .token (.punct .equalEqualEqual) => some true
  | .token (.punct .bangEqual) | .token (.punct .bangEqualEqual) => some false
  | _ => none

namespace Tree

/- At most `run` parentheses and `!` stand around the core. -/
inductive Strips (t : Tree) : (run : Nat) → Slot → Slot → Prop where
  | core {run s} (bare : t.parensInner? s = none) : Strips t run s s
  | layer {run s inner core} (around : t.parensInner? s = some inner)
      (rest : Strips t run inner core) : Strips t (run + 1) s core

def Literal (t : Tree) (run : Nat) (s : Slot) (b : Bool) : Prop :=
  ∃ core, t.Strips run s core ∧
    t.kind? =<< core = some (.token (.word (if b then .trueWord else .falseWord)))

structure Plain (t : Tree) (s : Slot) : Prop where
  negation : t.isKind s .prefixUnary → ∀ u, t.payload? s = some (.unary u) →
    u.op ≠ .token (.punct .bang)
  junction : ∀ b, t.payload? s = some (.binary b) →
    b.op ≠ .token (.punct .ampersandAmpersand) ∧ b.op ≠ .token (.punct .barBar)
  comparison : ∀ b, t.payload? s = some (.binary b) → (equality? b.op).isSome →
    ∀ run x, ¬ t.Literal run b.left x ∧ ¬ t.Literal run b.right x

/- A comparison of two literals compares with the right one. -/
inductive Reads (t : Tree) (run : Nat) : Slot → Formula → Prop where
  | atom {s core} (strips : t.Strips run s core) (plain : t.Plain core) : Reads t run s (.atom core)
  | neg {s core u φ} (strips : t.Strips run s core) (unary : t.isKind core .prefixUnary)
      (holds : t.payload? core = some (.unary u)) (op : u.op = .token (.punct .bang))
      (inner : Reads t run u.operand φ) : Reads t run s (.neg φ)
  | conj {s core b φ ψ} (strips : t.Strips run s core)
      (holds : t.payload? core = some (.binary b)) (op : b.op = .token (.punct .ampersandAmpersand))
      (left : Reads t run b.left φ) (right : Reads t run b.right ψ) : Reads t run s (.conj φ ψ)
  | disj {s core b φ ψ} (strips : t.Strips run s core)
      (holds : t.payload? core = some (.binary b)) (op : b.op = .token (.punct .barBar))
      (left : Reads t run b.left φ) (right : Reads t run b.right ψ) : Reads t run s (.disj φ ψ)
  | compareRight {s core b equal x φ} (strips : t.Strips run s core)
      (holds : t.payload? core = some (.binary b)) (op : equality? b.op = some equal)
      (right : t.Literal run b.right x) (left : Reads t run b.left φ) :
      Reads t run s (.compare equal x φ)
  | compareLeft {s core b equal x φ} (strips : t.Strips run s core)
      (holds : t.payload? core = some (.binary b)) (op : equality? b.op = some equal)
      (other : ∀ run y, ¬ t.Literal run b.right y) (left : t.Literal run b.left x)
      (right : Reads t run b.right φ) : Reads t run s (.compare equal x φ)

variable {t : Tree} {run more : Nat} {s core : Slot}

/-! ### Cores -/

theorem stripsBare (strips : t.Strips run s core) : t.parensInner? core = none := by
  induction strips with
  | core bare => exact bare
  | layer _ _ ih => exact ih

theorem stripsMore (strips : t.Strips run s core) (enough : run ≤ more) : t.Strips more s core := by
  induction strips generalizing more with
  | core bare => exact .core bare
  | layer around _ ih =>
    obtain ⟨more, rfl⟩ := Nat.exists_eq_add_of_le' (Nat.lt_of_lt_of_le (Nat.succ_pos _) enough)
    exact .layer around (ih (Nat.le_of_succ_le_succ enough))

theorem stripsSame {other : Slot} (strips : t.Strips run s core) (also : t.Strips more s other) :
    core = other := by
  induction strips generalizing more with
  | core bare =>
    cases also with
    | core _ => rfl
    | layer around _ => rw [bare] at around; cases around
  | layer around _ ih =>
    cases also with
    | core bare => rw [bare] at around; cases around
    | layer around' rest =>
      rw [around] at around'
      cases around'
      exact ih rest

theorem stripsReached (strips : t.Strips run s core) :
    s = core ∨ ∃ inner, t.parensInner? s = some inner := by
  cases strips with
  | core _ => exact .inl rfl
  | layer around _ => exact .inr ⟨_, around⟩

/- A bounded walk inwards ends at the core, or short of it at another layer. -/
theorem unwrapStrips (limit : Nat) (strips : t.Strips run s core) :
    t.Strips (run - limit) (unwrapBy t.parensInner? limit s) core := by
  induction limit generalizing run s with
  | zero => exact strips
  | succ limit ih =>
    cases strips with
    | core bare => rw [unwrapBy, bare]; exact .core bare
    | layer around rest =>
      rw [unwrapBy, around, Nat.add_sub_add_right]
      exact ih rest

theorem skipParensStrips (strips : t.Strips run s core) :
    t.Strips (run - maxAscent) (t.skipParens s) core :=
  unwrapStrips maxAscent strips

theorem skipParensCore (strips : t.Strips run s core) (short : run ≤ maxAscent) :
    t.skipParens s = core := by
  have rest := skipParensStrips strips
  rw [Nat.sub_eq_zero_of_le short] at rest
  cases rest with
  | core _ => rfl

theorem skipParensBare (bare : t.parensInner? s = none) : t.skipParens s = s :=
  skipParensCore (.core bare) (Nat.zero_le maxAscent)

theorem stripsUnwrap (limit : Nat) (s : Slot)
    (bare : t.parensInner? (unwrapBy t.parensInner? limit s) = none) :
    t.Strips limit s (unwrapBy t.parensInner? limit s) := by
  induction limit generalizing s with
  | zero => exact .core bare
  | succ limit ih =>
    cases around : t.parensInner? s with
    | none =>
      rw [unwrapBy, around]
      exact .core around
    | some inner =>
      rw [unwrapBy, around] at bare ⊢
      exact .layer around (ih inner bare)

/-! ### Literals -/

theorem wordHolds {w : Keyword} (word : t.kind? =<< s = some (.token (.word w))) :
    t.payload? s = none := by
  obtain ⟨i, rfl, kind⟩ := Option.bind_eq_some_iff.mp word
  obtain ⟨n, found, same⟩ := Option.map_eq_some_iff.mp kind
  show t.payloadAt? i = none
  cases n.payload? <;> simp [payloadAt?, found, same, NodeKind.form?]

theorem wordBare {w : Keyword} (word : t.kind? =<< s = some (.token (.word w))) :
    t.parensInner? s = none := by
  simp [parensInner?, parenthesized?, operand?, wordHolds word]

theorem literalFound {x : Bool} (found : t.booleanLiteral? s = some x) : t.Literal maxAscent s x := by
  have word : t.kind? =<< t.skipParens s = some (.token (.word (if x then .trueWord else .falseWord))) := by
    unfold booleanLiteral? at found
    split at found <;> cases found <;> assumption
  exact ⟨_, stripsUnwrap maxAscent s (wordBare word), word⟩

theorem foundLiteral {x : Bool} (literal : t.Literal run s x) (short : run ≤ maxAscent) :
    t.booleanLiteral? s = some x := by
  obtain ⟨core, strips, word⟩ := literal
  unfold booleanLiteral?
  rw [skipParensCore strips short, word]
  cases x <;> rfl

theorem literalSame {x y : Bool} (one : t.Literal run s x) (two : t.Literal more s y) : x = y := by
  obtain ⟨core, strips, word⟩ := one
  obtain ⟨other, also, word'⟩ := two
  cases stripsSame strips also
  rw [word] at word'
  cases x <;> cases y <;> first | rfl | cases word'

/-! ### Every condition has a reading -/

theorem readsMore {φ : Formula} (reads : t.Reads run s φ) (enough : run ≤ more) :
    t.Reads more s φ := by
  have literal {s : Slot} {x : Bool} : t.Literal run s x → t.Literal more s x :=
    fun ⟨core, strips, word⟩ => ⟨core, stripsMore strips enough, word⟩
  induction reads with
  | atom strips plain => exact .atom (stripsMore strips enough) plain
  | neg strips unary holds op _ inner => exact .neg (stripsMore strips enough) unary holds op inner
  | conj strips holds op _ _ left right =>
    exact .conj (stripsMore strips enough) holds op left right
  | disj strips holds op _ _ left right =>
    exact .disj (stripsMore strips enough) holds op left right
  | compareRight strips holds op right _ left =>
    exact .compareRight (stripsMore strips enough) holds op (literal right) left
  | compareLeft strips holds op other left _ right =>
    exact .compareLeft (stripsMore strips enough) holds op other (literal left) right

theorem layerHeld {inner : Slot} (around : t.parensInner? s = some inner) :
    t.payload? s = some (.parenthesized inner) ∨ t.payload? s = some (.operand inner) := by
  unfold parensInner? parenthesized? operand? at around
  cases held : t.payload? s with
  | none => simp [held] at around
  | some p =>
    cases p with
    | parenthesized i => simpa [held] using around
    | operand i =>
      simp only [held] at around
      split at around <;> cases around
      exact .inr rfl
    | _ => simp [held] at around

theorem heldBelow {p : Payload} {bound : Nat} {child : Slot} (forest : t.Forest)
    (holds : t.payload? s = some p) (below : ∀ i ∈ s, i < bound + 1) (own : child ∈ p.slots) :
    ∀ j ∈ child, j < bound := by
  rintro j rfl
  obtain ⟨i, rfl, held⟩ := Option.bind_eq_some_iff.mp holds
  exact Nat.lt_of_lt_of_le (heldOlder forest held own) (Nat.le_of_lt_succ (below i rfl))

/- Where children are older than their parents, going inwards comes to an end. -/
theorem stripsExists (forest : t.Forest) (bound : Nat) (s : Slot) (below : ∀ i ∈ s, i < bound) :
    ∃ run core, t.Strips run s core ∧ ∀ i ∈ core, i < bound := by
  induction bound generalizing s with
  | zero =>
    cases s with
    | none => exact ⟨0, none, .core rfl, below⟩
    | some i => exact absurd (below i rfl) (Nat.not_lt_zero i)
  | succ bound ih =>
    cases around : t.parensInner? s with
    | none => exact ⟨0, s, .core around, below⟩
    | some inner =>
      have older : ∀ i ∈ inner, i < bound := by
        rcases layerHeld around with held | held <;> exact heldBelow forest held below (by simp [Payload.slots])
      obtain ⟨run, core, strips, lower⟩ := ih inner older
      exact ⟨run + 1, core, .layer around strips, fun i hi => Nat.lt_succ_of_lt (lower i hi)⟩

theorem plainOf {p : Payload} (held : t.payload? s = some p) (notUnary : ∀ u, p ≠ .unary u)
    (notBinary : ∀ b, p ≠ .binary b) : t.Plain s := by
  refine ⟨fun _ u own => ?_, fun b own => ?_, fun b own => ?_⟩
  · exact absurd (Option.some.inj (held.symm.trans own)) (notUnary u)
  · exact absurd (Option.some.inj (held.symm.trans own)) (notBinary b)
  · exact absurd (Option.some.inj (held.symm.trans own)) (notBinary b)

theorem readsUnary {u : Unary} (strips : t.Strips run s core)
    (held : t.payload? core = some (.unary u)) (inner : ∃ run φ, t.Reads run u.operand φ) :
    ∃ run φ, t.Reads run s φ := by
  by_cases bang : t.isKind core .prefixUnary ∧ u.op = .token (.punct .bang)
  · obtain ⟨more, φ, reads⟩ := inner
    exact ⟨max run more, _, .neg (stripsMore strips (Nat.le_max_left ..)) bang.1 held bang.2
      (readsMore reads (Nat.le_max_right ..))⟩
  · refine ⟨run, _, .atom strips ⟨fun kind v own op => ?_, ?_, ?_⟩⟩
    · cases held.symm.trans own
      exact bang ⟨kind, op⟩
    · simp [held]
    · simp [held]

theorem readsBinary {b : Binary} (strips : t.Strips run s core)
    (held : t.payload? core = some (.binary b)) (left : ∃ run φ, t.Reads run b.left φ)
    (right : ∃ run φ, t.Reads run b.right φ) : ∃ run φ, t.Reads run s φ := by
  obtain ⟨runL, φ, left⟩ := left
  obtain ⟨runR, ψ, right⟩ := right
  by_cases both : b.op = .token (.punct .ampersandAmpersand)
  · refine ⟨max run (max runL runR), _, .conj (stripsMore strips ?_) held both (readsMore left ?_)
      (readsMore right ?_)⟩ <;> omega
  by_cases either : b.op = .token (.punct .barBar)
  · refine ⟨max run (max runL runR), _, .disj (stripsMore strips ?_) held either (readsMore left ?_)
      (readsMore right ?_)⟩ <;> omega
  by_cases onRight : (equality? b.op).isSome ∧ ∃ run x, t.Literal run b.right x
  · obtain ⟨found, more, x, core', inner, word⟩ := onRight
    obtain ⟨equal, op⟩ := Option.isSome_iff_exists.mp found
    refine ⟨max run (max more runL), _, .compareRight (stripsMore strips ?_) held op
      ⟨core', stripsMore inner ?_, word⟩ (readsMore left ?_)⟩ <;> omega
  by_cases onLeft : (equality? b.op).isSome ∧ ∃ run x, t.Literal run b.left x
  · obtain ⟨found, more, x, core', inner, word⟩ := onLeft
    obtain ⟨equal, op⟩ := Option.isSome_iff_exists.mp found
    refine ⟨max run (max more runR), _, .compareLeft (stripsMore strips ?_) held op
      (fun r y lit => onRight ⟨found, r, y, lit⟩) ⟨core', stripsMore inner ?_, word⟩
      (readsMore right ?_)⟩ <;> omega
  refine ⟨run, _, .atom strips ⟨by simp [held], fun c own => ?_, fun c own found r x => ?_⟩⟩
  · cases held.symm.trans own
    exact ⟨both, either⟩
  · cases held.symm.trans own
    exact ⟨fun lit => onLeft ⟨found, r, x, lit⟩, fun lit => onRight ⟨found, r, x, lit⟩⟩

theorem readsExists (forest : t.Forest) (bound : Nat) (s : Slot) (below : ∀ i ∈ s, i < bound) :
    ∃ run φ, t.Reads run s φ := by
  induction bound generalizing s with
  | zero =>
    cases s with
    | none => exact ⟨0, _, .atom (.core rfl) ⟨nofun, nofun, nofun⟩⟩
    | some i => exact absurd (below i rfl) (Nat.not_lt_zero i)
  | succ bound ih =>
    obtain ⟨run, core, strips, lower⟩ := stripsExists forest (bound + 1) s below
    cases held : t.payload? core with
    | none => exact ⟨run, _, .atom strips ⟨by simp [held], by simp [held], by simp [held]⟩⟩
    | some p =>
      have inner {child : Slot} (own : child ∈ p.slots) : ∃ run φ, t.Reads run child φ :=
        ih child (heldBelow forest held lower own)
      cases p with
      | unary u => exact readsUnary strips held (inner (by simp [Payload.slots]))
      | binary b =>
        exact readsBinary strips held (inner (by simp [Payload.slots])) (inner (by simp [Payload.slots]))
      | _ => exact ⟨run, _, .atom strips (plainOf held (by simp) (by simp))⟩

end Tree
end CallGuard
