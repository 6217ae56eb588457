/-! What stops a piece of work for good, as against a plain "nothing found". -/
namespace CallGuard

inductive Breakdown
  /-- A source of types failed instead of answering. -/
  | typesFailed
  /-- A sum of offsets is beyond the largest one. -/
  | offsetTooLarge
  deriving DecidableEq, Repr

/-- Something that was needed but lies beyond the largest offset. -/
def Breakdown.unlessTooLarge : Option α → Except Breakdown α
  | some a => .ok a
  | none => .error .offsetTooLarge

/-- A chain of two steps answers what it does by the answers of both. -/
theorem bindAnswered {ε α β : Type} {x : Except ε α} {f : α → Except ε β} {b : β} :
    (x >>= f) = .ok b ↔ ∃ a, x = .ok a ∧ f a = .ok b := by
  cases x with
  | error fault => exact ⟨fun gives => (nomatch gives), fun ⟨_, gives, _⟩ => (nomatch gives)⟩
  | ok a => exact ⟨fun gives => ⟨a, rfl, gives⟩, fun ⟨_, same, gives⟩ => Except.ok.inj same ▸ gives⟩

end CallGuard
