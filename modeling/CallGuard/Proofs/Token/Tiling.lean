import CallGuard.Proofs.Token.Row
import CallGuard.Token.Scanner
import Mathlib.Logic.Function.Iterate

/-! Reading tokens one at a time tiles a text. Each token begins, with the gap in front of it, where the
one before it stops, so that nothing is lost and nothing is read twice; all places lie between two
characters, and the end is reached after as many steps as the text has bytes and one more. -/
namespace CallGuard

open Text

theorem sliceCut {before piece after whole : List Char} (split : before ++ (piece ++ after) = whole) :
    slice? whole (byteLength before) (byteLength (before ++ piece)) = some piece := by
  subst split
  simp [slice?, splitAtAppend]

theorem lengthBytes (cs : List Char) : cs.length ≤ byteLength cs := by
  induction cs with
  | nil => exact Nat.le_refl _
  | cons c cs ih =>
    have wide := c.utf8Size_pos
    simp only [List.length_cons, byteLength]
    omega

/- A token of a text with the gap in front of it. -/
structure Token.Tile (text : List Char) (t : Token) : Prop where
  gap : t.fullStart ≤ t.start
  order : t.start ≤ t.stop
  wide : t.isEnd = false → t.start < t.stop
  last : t.isEnd = true → t.stop = byteLength text
  full : Boundary text t.fullStart
  starts : Boundary text t.start
  stops : Boundary text t.stop

namespace Scan

theorem nextFull (offset : Nat) (text : List Char) : (next offset text).token.fullStart = offset := by
  unfold next afterGap
  split <;> rfl

/- The end token is read only where nothing is left. -/
theorem endRest {offset : Nat} {text : List Char} (ends : (next offset text).token.isEnd = true) :
    (next offset text).rest = [] := by
  unfold next afterGap at ends ⊢
  split at ends
  · rfl
  · exact absurd (beq_iff_eq.mp ends) (Lexeme.readNoEnd _ _ _)

section
variable {whole before text : List Char} {offset : Nat}

/- Behind the part of a text that was read, the next token covers the piece that is taken off. -/
theorem nextTile (split : before ++ text = whole) (reached : byteLength before = offset) :
    let s := next offset text
    s.token.Tile whole ∧ ∃ piece, piece ++ s.rest = text ∧ byteLength (before ++ piece) = s.token.stop := by
  intro s
  obtain ⟨gap, behind, piece, ahead, own, _⟩ := nextCut offset text
  obtain ⟨order, empty, wide⟩ := nextPlace offset text
  have covered : (gap ++ piece) ++ s.rest = text := by rw [List.append_assoc, own.1, ahead.1]
  have stop : byteLength (before ++ (gap ++ piece)) = s.token.stop := by
    rw [byteLengthAppend, byteLengthAppend, reached, ← Nat.add_assoc, ← ahead.2, ← own.2]
  have stops : Boundary whole s.token.stop :=
    ⟨before ++ (gap ++ piece), s.rest, by rw [List.append_assoc, covered, split], stop⟩
  refine ⟨⟨?_, ?_, wide, fun ends => ?_, ?_, (nextBoundary split reached).1, stops⟩,
    gap ++ piece, covered, stop⟩
  · rw [nextFull]
    exact order
  · cases ends : s.token.isEnd with
    | true => exact Nat.le_of_eq (empty ends).symm
    | false => exact Nat.le_of_lt (wide ends)
  · have nothing : s.rest = [] := endRest ends
    rw [nothing, List.append_nil] at covered
    rw [← stop, covered, split]
  · rw [nextFull]
    exact ⟨before, text, split, reached⟩

/- The pieces of all tokens, with the gaps in front of them, make up the text. -/
theorem allTiles (split : before ++ text = whole) (reached : byteLength before = offset) :
    (((all offset text).map (·.token)).mapM fun t => slice? whole t.fullStart t.stop).map List.flatten =
      some text := by
  fun_induction all offset text generalizing before with
  | case1 offset text last =>
    rename_i ends
    obtain ⟨_, piece, covered, stop⟩ := nextTile split reached
    have slice := sliceCut (covered ▸ split)
    rw [endRest ends, List.append_nil] at covered
    rw [reached, stop] at slice
    rw [List.map_singleton, List.mapM_cons, nextFull, slice, covered]
    simp
  | case2 offset text first =>
    rename_i ih
    obtain ⟨_, piece, covered, stop⟩ := nextTile split reached
    have slice := sliceCut (covered ▸ split)
    rw [reached, stop] at slice
    obtain ⟨pieces, each, rest⟩ := Option.map_eq_some_iff.mp
      (ih (by rw [List.append_assoc, covered, split]) stop)
    rw [List.map_cons, List.mapM_cons, nextFull, slice, each]
    show some (piece ++ pieces.flatten) = some text
    rw [rest, covered]

end
end Scan

namespace Scanner
variable {text : List Char} {s : Scanner}

/- The text behind the token read last is what is left. -/
def Stands (text : List Char) (s : Scanner) : Prop :=
  ∃ before, before ++ s.rest = text ∧ byteLength before = s.token.stop

theorem beginStands (text : List Char) : (ofText text).Stands text := ⟨[], rfl, rfl⟩

theorem advanceStands (stands : s.Stands text) : s.advance.token.Tile text ∧ s.advance.Stands text := by
  obtain ⟨before, split, reached⟩ := stands
  obtain ⟨tile, piece, covered, stop⟩ := Scan.nextTile split reached
  exact ⟨tile, before ++ piece, by rw [List.append_assoc]; exact covered ▸ split, stop⟩

theorem iterateStands (text : List Char) (n : Nat) : (advance^[n] (ofText text)).Stands text := by
  induction n with
  | zero => exact beginStands text
  | succ n ih =>
    rw [Function.iterate_succ_apply']
    exact (advanceStands ih).2

/- The tokens that are read one at a time up to the end are those that are read at once. -/
theorem advanceAll {offset : Nat} (there : s.token.stop = offset) (left : s.rest = text) :
    ∃ last ≤ text.length, (Scan.all offset text).map (·.token) =
        (List.range (last + 1)).map (fun n => (advance^[n + 1] s).token) ∧
      (advance^[last + 1] s).token.isEnd = true ∧
      ∀ n < last, (advance^[n + 1] s).token.isEnd = false := by
  fun_induction Scan.all offset text generalizing s with
  | case1 =>
    rename_i ends
    subst there left
    exact ⟨0, Nat.zero_le _, rfl, ends, fun n less => absurd less (Nat.not_lt_zero n)⟩
  | case2 =>
    rename_i plain shorter ih
    subst there left
    obtain ⟨last, few, row, reached, earlier⟩ := ih (s := s.advance) rfl rfl
    refine ⟨last + 1, Nat.lt_of_le_of_lt few shorter, ?_, reached, fun n less => ?_⟩
    · rw [List.range_succ_eq_map, List.map_cons, List.map_cons, List.map_map, row]
      rfl
    · cases n with
      | zero => exact Bool.eq_false_iff.mpr plain
      | succ n => exact earlier n (Nat.lt_of_succ_lt_succ less)

end Scanner

theorem scanningTiles (text : List Char) :
    let token n := (Scanner.advance^[n + 1] (.ofText text)).token
    ∃ last ≤ byteLength text,
      let row := (List.range (last + 1)).map token
      (token last).isEnd = true ∧ (∀ n < last, (token n).isEnd = false) ∧
      row = (Scan.ofText text).map (·.token) ∧
      (token 0).fullStart = 0 ∧ (∀ n, (token (n + 1)).fullStart = (token n).stop) ∧
      (∀ n, (token n).Tile text) ∧
      (row.mapM fun t => slice? text t.fullStart t.stop).map List.flatten = some text := by
  intro token
  obtain ⟨last, few, row, reached, earlier⟩ := Scanner.advanceAll (s := .ofText text) rfl rfl
  have step (n : Nat) : token n = (Scanner.advance (Scanner.advance^[n] (.ofText text))).token :=
    congrArg Scanner.token (Function.iterate_succ_apply' Scanner.advance n (.ofText text))
  refine ⟨last, Nat.le_trans few (lengthBytes text), reached, earlier, row.symm, Scan.nextFull _ _,
    fun n => ?_, fun n => ?_, ?_⟩
  · rw [step]
    exact Scan.nextFull _ _
  · rw [step]
    exact (Scanner.advanceStands (Scanner.iterateStands text n)).1
  · rw [← row]
    exact Scan.allTiles (List.nil_append text) rfl

end CallGuard
