import CallGuard.Analysis.Guard
import CallGuard.Proofs.Tree.Depth

/-! Statements that are never left at their end. `exits` looks at the last statement of a block
only; what it accepts cannot complete, and in a shallow tree it misses no statement that ends in
this way. -/
namespace CallGuard

def NodeKind.isJump : NodeKind → Bool
  | .returnStatement | .throwStatement | .breakStatement | .continueStatement => true
  | _ => false

namespace Tree

/- The statement cannot complete normally. -/
inductive Stops (t : Tree) : Slot → Prop where
  | jump {i k} (kind : t.kind? i = some k) (leaves : k.isJump) : Stops t (some i)
  | block {s l part} (held : t.payload? s = some (.block l)) (within : part ∈ l.items)
      (rest : Stops t part) : Stops t s
  | branch {s b} (held : t.payload? s = some (.branch b)) (yes : Stops t b.thenBranch)
      (no : Stops t b.elseBranch) : Stops t s

/- It cannot complete because of how it ends. -/
inductive Ends (t : Tree) : Slot → Prop where
  | jump {i k} (kind : t.kind? i = some k) (leaves : k.isJump) : Ends t (some i)
  | block {s l last} (held : t.payload? s = some (.block l)) (final : l.items.getLast? = some last)
      (rest : Ends t last) : Ends t s
  | branch {s b} (held : t.payload? s = some (.branch b)) (yes : Ends t b.thenBranch)
      (no : Ends t b.elseBranch) : Ends t s

variable {t : Tree} {s : Slot}

theorem endsStops (ends : t.Ends s) : t.Stops s := by
  induction ends with
  | jump kind leaves => exact .jump kind leaves
  | block held final _ ih => exact .block held (List.mem_of_getLast? final) ih
  | branch held _ _ yes no => exact .branch held yes no

/- No statement of a block stands behind one that stops. -/
def Live (t : Tree) : Prop := ∀ s l part, t.payload? s = some (.block l) → part ∈ l.items →
  t.Stops part → l.items.getLast? = some part

theorem stopsEnds (live : t.Live) (stops : t.Stops s) : t.Ends s := by
  induction stops with
  | jump kind leaves => exact .jump kind leaves
  | block held within rest ih => exact .block held (live _ _ _ held within rest) ih
  | branch held _ _ yes no => exact .branch held yes no

theorem blockHeld {l : NodeList} (h : t.block? s = some l) : t.payload? s = some (.block l) := by
  unfold block? at h
  split at h <;> cases h
  assumption

theorem branchHeld {b : Branch} (h : t.branch? s = some b) : t.payload? s = some (.branch b) := by
  unfold branch? at h
  split at h <;> cases h
  assumption

theorem exitsEnds (limit : Nat) (s : Slot) (h : t.exits limit s = true) : t.Ends s := by
  induction limit generalizing s with
  | zero => cases h
  | succ limit ih =>
    rw [exits] at h
    cases s with
    | none => cases h
    | some i =>
      have jump {k : NodeKind} (leaves : k.isJump) (kind : t.kind? =<< some i = some k) :
          t.Ends (some i) := .jump kind leaves
      split at h
      iterate 4 exact jump rfl ‹_›
      · split at h
        · rename_i last found
          obtain ⟨l, held, final⟩ := Option.bind_eq_some_iff.mp found
          exact .block (blockHeld held) final (ih last h)
        · cases h
      · split at h
        · rename_i b held
          simp only [Bool.and_eq_true] at h
          exact .branch (branchHeld held) (ih _ h.1.2) (ih _ h.2)
        · cases h
      · cases h

theorem blockKind {k : NodeKind} (form : k.form? = some .block) : k = .block := by
  unfold NodeKind.form? at form
  split at form <;> cases form
  rfl

theorem branchKind {k : NodeKind} (form : k.form? = some .branch) : k = .ifStatement := by
  unfold NodeKind.form? at form
  split at form <;> cases form
  rfl

theorem endsThere (ends : t.Ends s) : ∃ i, s = some i := by
  cases s with
  | some i => exact ⟨i, rfl⟩
  | none =>
    cases ends with
    | block held _ _ => cases held
    | branch held _ _ => cases held

/- Steps enough for all that a statement may hold. -/
def Suffices (t : Tree) (limit : Nat) (s : Slot) : Prop :=
  ∀ i ∈ s, ∃ n, t.Depth i n ∧ maxAscent < n + limit

theorem sufficesMore {limit : Nat} (shallow : t.Shallow) (enough : t.Suffices limit s)
    (ends : t.Ends s) : ∃ less, limit = less + 1 := by
  obtain ⟨i, rfl⟩ := endsThere ends
  obtain ⟨n, depth, enough⟩ := enough i rfl
  have least := shallow i n depth
  exact Nat.exists_eq_add_one.mpr (by omega)

theorem sufficesBelow {p : Payload} {child : Slot} {limit : Nat} (forest : t.Forest)
    (held : t.payload? s = some p) (own : child ∈ p.slots) (enough : t.Suffices (limit + 1) s) :
    t.Suffices limit child := by
  rintro j rfl
  obtain ⟨i, rfl, held⟩ := Option.bind_eq_some_iff.mp held
  obtain ⟨n, depth, enough⟩ := enough i rfl
  exact ⟨n + 1, .under (heldParent forest held own) depth, by omega⟩

theorem heldKindIs {p : Payload} {kind : NodeKind} (forest : t.Forest)
    (held : t.payload? s = some p) (only : ∀ k : NodeKind, k.form? = some p.form → k = kind) :
    t.kind? =<< s = some kind := by
  obtain ⟨i, rfl, held⟩ := Option.bind_eq_some_iff.mp held
  obtain ⟨k, found, form⟩ := heldKind forest held
  cases only k form
  exact found

/- The deeper a statement lies, the less it can hold, so the bound is never met. -/
theorem endsExits (forest : t.Forest) (shallow : t.Shallow) {limit : Nat} (ends : t.Ends s)
    (enough : t.Suffices limit s) : t.exits limit s = true := by
  induction ends generalizing limit with
  | @jump i k kind leaves =>
    obtain ⟨less, rfl⟩ := sufficesMore shallow enough (.jump kind leaves)
    have found : t.kind? =<< some i = some k := kind
    rw [exits, found]
    cases k <;> first | rfl | cases leaves
  | @block s l last held final rest ih =>
    obtain ⟨less, rfl⟩ := sufficesMore shallow enough (.block held final rest)
    have inner := ih (sufficesBelow forest held (List.mem_of_getLast? final) enough)
    have row : t.block? s = some l := by simp [block?, held]
    rw [exits, heldKindIs forest held fun k => blockKind]
    simpa only [row, Option.bind_some, final] using inner
  | @branch s b held yes no ihYes ihNo =>
    obtain ⟨less, rfl⟩ := sufficesMore shallow enough (.branch held yes no)
    have first := ihYes (sufficesBelow forest held (by simp [Payload.slots]) enough)
    have second := ihNo (sufficesBelow forest held (by simp [Payload.slots]) enough)
    have there : b.elseBranch.isSome = true := by
      obtain ⟨i, found⟩ := endsThere no
      rw [found]
      rfl
    have arms : t.branch? s = some b := by simp [branch?, held]
    rw [exits, heldKindIs forest held fun k => branchKind]
    simp only [arms, there, first, second, Bool.and_self]

theorem exitsExact (forest : t.Forest) (shallow : t.Shallow) (s : Slot) :
    t.exits (maxAscent + 1) s = true ↔ t.Ends s := by
  refine ⟨exitsEnds _ s, fun ends => endsExits forest shallow ends fun i _ => ?_⟩
  obtain ⟨n, depth, _⟩ := depthExists forest i
  exact ⟨n, depth, by omega⟩

end Tree
end CallGuard
