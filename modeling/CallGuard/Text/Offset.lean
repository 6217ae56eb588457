/-! Offsets count the bytes of the UTF-8 form of a text. A text is handled as its list of
characters; an offset is good for cutting when it falls between two of them. -/
namespace CallGuard

/-- The largest offset. A sum beyond it has no meaning and is refused, never wrapped. -/
def Offset.max : Nat := 4294967295

/-- The sum of two offsets, unless it is beyond the largest. -/
def Offset.add? (a b : Nat) : Option Nat :=
  if a + b ≤ Offset.max then some (a + b) else none

namespace Text

/-- The bytes that a run of characters takes. -/
def byteLength : List Char → Nat
  | [] => 0
  | c :: cs => c.utf8Size + byteLength cs

@[simp] theorem byteLengthAppend (a b : List Char) :
    byteLength (a ++ b) = byteLength a + byteLength b := by
  induction a with
  | nil => simp [byteLength]
  | cons c a ih => simp [byteLength, ih, Nat.add_assoc]

/-- Cuts a text after `n` bytes; nothing if the text is shorter or `n` falls inside a character. -/
def splitAt? : Nat → List Char → Option (List Char × List Char)
  | 0, cs => some ([], cs)
  | _ + 1, [] => none
  | n + 1, c :: cs =>
    if c.utf8Size ≤ n + 1 then
      (splitAt? (n + 1 - c.utf8Size) cs).map fun (before, after) => (c :: before, after)
    else none

theorem splitAtSpec {n : Nat} {cs before after : List Char}
    (h : splitAt? n cs = some (before, after)) : before ++ after = cs ∧ byteLength before = n := by
  fun_induction splitAt? n cs generalizing before after with
  | case1 => simp_all [byteLength]
  | case2 => simp at h
  | case3 n c cs fits ih =>
    obtain ⟨⟨b, a⟩, split, same⟩ := Option.map_eq_some_iff.1 h
    cases same
    have := ih split
    refine ⟨by simp [this.1], ?_⟩
    simp only [byteLength, this.2]
    omega
  | case4 => simp at h

theorem splitAtAppend (before after : List Char) :
    splitAt? (byteLength before) (before ++ after) = some (before, after) := by
  induction before with
  | nil => simp [byteLength, splitAt?]
  | cons c cs ih =>
    have pos := c.utf8Size_pos
    obtain ⟨k, hk⟩ : ∃ k, c.utf8Size + byteLength cs = k + 1 :=
      ⟨c.utf8Size + byteLength cs - 1, by omega⟩
    have rest : k + 1 - c.utf8Size = byteLength cs := by omega
    simp only [byteLength, hk, List.cons_append, splitAt?, rest, ih]
    rw [if_pos (by omega)]
    rfl

/-- The characters from offset `a` up to offset `b`; nothing if that is no proper piece. -/
def slice? (cs : List Char) (a b : Nat) : Option (List Char) := do
  if a ≤ b then
    let (_, after) ← splitAt? a cs
    let (piece, _) ← splitAt? (b - a) after
    some piece
  else none

end Text

end CallGuard
