/-! Sets of characters given as ranges of code points. -/
namespace CallGuard

/-- The first and the last code point of a run. -/
abbrev CodeRange := Nat × Nat

namespace CodeRange

def contains (r : CodeRange) (code : Nat) : Bool := r.1 ≤ code && code ≤ r.2

/-- Membership of a character in a set of runs. -/
def anyContains (rs : List CodeRange) (c : Char) : Bool := rs.any (·.contains c.toNat)

theorem anyContainsIff {rs : List CodeRange} {c : Char} :
    anyContains rs c = true ↔ ∃ r ∈ rs, r.1 ≤ c.toNat ∧ c.toNat ≤ r.2 := by
  simp [anyContains, contains]

end CodeRange

end CallGuard
