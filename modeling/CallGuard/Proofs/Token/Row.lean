import CallGuard.Token.Scan

/-! The tokens of a text stand in a row: each one covers a piece of the text behind the one before
it, and only the end token, which comes last, covers nothing. -/
namespace CallGuard

/- From an offset on, a piece is taken off the front of a text. -/
def Text.Cut (offset : Nat) (text piece : List Char) (stop : Nat) (rest : List Char) : Prop :=
  piece ++ rest = text ∧ stop = offset + byteLength piece

namespace Text
variable {offset stop : Nat} {text piece rest : List Char}

theorem cutNothing (offset : Nat) (text : List Char) : Cut offset text [] offset text :=
  ⟨rfl, rfl⟩

theorem cutOne (offset : Nat) (c : Char) (text : List Char) :
    Cut offset (c :: text) [c] (offset + c.utf8Size) text := ⟨rfl, rfl⟩

theorem cutFurther {c : Char} (more : Cut (offset + c.utf8Size) text piece stop rest) :
    Cut offset (c :: text) (c :: piece) stop rest := by
  refine ⟨congrArg (c :: ·) more.1, ?_⟩
  rw [more.2, byteLength, Nat.add_assoc]

theorem cutSplit {before after : List Char} (whole : before ++ after = text) :
    Cut offset text before (offset + byteLength before) after := ⟨whole, rfl⟩

theorem byteLengthPos (some : piece ≠ []) : 0 < byteLength piece := by
  cases piece with
  | nil => exact absurd rfl some
  | cons c cs => exact Nat.lt_of_lt_of_le c.utf8Size_pos (Nat.le_add_right _ _)

/- An offset between two characters of a text, or at one of its ends. -/
def Boundary (whole : List Char) (offset : Nat) : Prop :=
  ∃ before after, before ++ after = whole ∧ byteLength before = offset

theorem boundaryInside {whole : List Char} (bound : Boundary whole offset) :
    offset ≤ byteLength whole := by
  obtain ⟨before, after, rfl, rfl⟩ := bound
  rw [byteLengthAppend]
  exact Nat.le_add_right _ _

end Text

open Text

namespace Quoted

theorem stringCut {quote : Char} (narrow : quote.utf8Size = 1) (offset : Nat) (cs : List Char) :
    ∃ piece, Cut offset cs piece (string quote offset cs).stop (string quote offset cs).rest := by
  fun_induction string quote offset cs with
  | case1 offset => exact ⟨[], cutNothing _ _⟩
  | case2 offset c cs closes =>
    cases beq_iff_eq.mp closes
    exact ⟨[quote], rfl, by simp [byteLength, narrow]⟩
  | case3 offset c cs _ _ => exact ⟨[], cutNothing _ _⟩
  | case4 offset c _ _ escape => 
    cases beq_iff_eq.mp escape
    exact ⟨_, cutOne _ _ _⟩
  | case5 offset c _ _ escape cs ih =>
    cases beq_iff_eq.mp escape
    obtain ⟨piece, cut⟩ := ih
    exact ⟨_, cutFurther (cutFurther (cutFurther cut))⟩
  | case6 offset c _ _ escape e cs _ ih =>
    cases beq_iff_eq.mp escape
    obtain ⟨piece, cut⟩ := ih
    exact ⟨_, cutFurther (cutFurther cut)⟩
  | case7 offset c cs _ _ _ ih =>
    obtain ⟨piece, cut⟩ := ih
    exact ⟨_, cutFurther cut⟩

theorem templateCut (depth offset : Nat) (cs : List Char) :
    ∃ piece, Cut offset cs piece (template depth offset cs).stop
      (template depth offset cs).rest := by
  fun_induction template depth offset cs with
  | case1 depth offset => exact ⟨[], cutNothing _ _⟩
  | case2 depth offset c cs closes =>
    cases beq_iff_eq.mp (Bool.and_eq_true_iff.mp closes).1
    exact ⟨_, cutOne _ _ _⟩
  | case3 depth offset c _ escape =>
    cases beq_iff_eq.mp escape
    exact ⟨_, cutOne _ _ _⟩
  | case4 depth offset c _ escape cs ih =>
    cases beq_iff_eq.mp escape
    obtain ⟨piece, cut⟩ := ih
    exact ⟨_, cutFurther (cutFurther (cutFurther cut))⟩
  | case5 depth offset c _ escape e cs _ ih =>
    cases beq_iff_eq.mp escape
    obtain ⟨piece, cut⟩ := ih
    exact ⟨_, cutFurther (cutFurther cut)⟩
  | case6 depth offset _ cs _ _ ih =>
    obtain ⟨piece, cut⟩ := ih
    exact ⟨_, cutFurther (cutFurther cut)⟩
  | case7 depth offset c cs _ _ _ _ ih =>
    obtain ⟨piece, cut⟩ := ih
    exact ⟨_, cutFurther cut⟩
  | case8 depth offset c cs _ _ _ opens ih =>
    cases beq_iff_eq.mp opens
    obtain ⟨piece, cut⟩ := ih
    exact ⟨_, cutFurther cut⟩
  | case9 depth offset c cs _ _ _ _ closes ih =>
    cases beq_iff_eq.mp closes
    obtain ⟨piece, cut⟩ := ih
    exact ⟨_, cutFurther cut⟩
  | case10 depth offset c cs _ _ _ _ _ ih =>
    obtain ⟨piece, cut⟩ := ih
    exact ⟨_, cutFurther cut⟩

end Quoted

namespace Punctuator

theorem spellingBytes (p : Punctuator) : byteLength p.spelling.toList = p.width := by
  cases p <;> rfl

theorem spellingSome (p : Punctuator) : p.spelling.toList ≠ [] := by
  intro none
  have wide := p.widthPositive
  rw [← spellingBytes, none] at wide
  exact Nat.lt_irrefl _ wide

theorem startDrops (p : Punctuator) {text : List Char} (found : ofStart? text = some p) :
    p.spelling.toList ++ text.tail.drop (p.width - 1) = text := by
  unfold ofStart? at found
  split at found
  all_goals first
    | contradiction
    | (obtain rfl := Option.some.inj found; rfl)
    | (split at found <;> (obtain rfl := Option.some.inj found; rfl))

end Punctuator

namespace Lexeme

theorem wordCut {c : Char} (begins : isWordStart c = true) (start : Nat) (cs : List Char) :
    ∃ piece, piece ≠ [] ∧
      Cut start (c :: cs) piece (ofWord start (c :: cs)).stop (ofWord start (c :: cs)).rest := by
  refine ⟨(c :: cs).takeWhile isWordPart, ?_, cutSplit List.takeWhile_append_dropWhile⟩
  rw [List.takeWhile_cons_of_pos (wordStartPart begins)]
  exact List.cons_ne_nil _ _

theorem numberCut {cs : List Char} (begins : startsNumber cs = true) (start : Nat) :
    ∃ piece, piece ≠ [] ∧ Cut start cs piece (ofNumber start cs).stop (ofNumber start cs).rest := by
  refine ⟨(Number.split cs).1, fun none => ?_, cutSplit (Number.splitAppend cs)⟩
  have shorter : (Number.split cs).2.length < cs.length := @ofNumberShorter start _ begins
  have whole := Number.splitAppend cs
  rw [none, List.nil_append] at whole
  rw [whole] at shorter
  exact Nat.lt_irrefl _ shorter

theorem readCut (start : Nat) (c : Char) (cs : List Char) :
    ∃ piece, piece ≠ [] ∧ Cut start (c :: cs) piece (read start c cs).stop (read start c cs).rest := by
  unfold read
  split
  · rename_i word
    exact wordCut word start cs
  · split
    · rename_i number
      exact numberCut number start
    · split
      · rename_i quote
        have narrow : c.utf8Size = 1 := by
          rcases Bool.or_eq_true_iff.mp quote with same | same <;> cases beq_iff_eq.mp same <;> rfl
        obtain ⟨piece, cut⟩ := Quoted.stringCut narrow (start + 1) cs
        exact ⟨_, List.cons_ne_nil _ _, cutFurther (by rw [narrow]; exact cut)⟩
      · split
        · rename_i quote
          cases beq_iff_eq.mp quote
          obtain ⟨piece, cut⟩ := Quoted.templateCut 0 (start + 1) cs
          exact ⟨_, List.cons_ne_nil _ _, cutFurther cut⟩
        · split
          · rename_i p found
            exact ⟨_, p.spellingSome, p.startDrops found, by rw [p.spellingBytes]⟩
          · exact ⟨_, List.cons_ne_nil _ _, cutOne _ _ _⟩

theorem readNoEnd (start : Nat) (c : Char) (cs : List Char) :
    (read start c cs).kind ≠ .endOfFile := by
  unfold read ofWord ofNumber ofQuoted
  split
  · dsimp only
    split <;> nofun
  · split
    · nofun
    · split
      · nofun
      · split
        · nofun
        · split <;> nofun

end Lexeme

theorem Trivia.skipCut (mode : TriviaMode) (lineBreak : Bool) (offset : Nat) (cs : List Char) :
    ∃ gap, Cut offset cs gap (skip mode lineBreak offset cs).offset
      (skip mode lineBreak offset cs).rest := by
  fun_induction skip mode lineBreak offset cs with
  | case1 | case2 => exact ⟨[], cutNothing _ _⟩
  | case3 _ _ _ ih => obtain ⟨gap, cut⟩ := ih; exact ⟨_, cutFurther (cutFurther cut)⟩
  | case4 _ _ _ ih => obtain ⟨gap, cut⟩ := ih; exact ⟨_, cutFurther (cutFurther cut)⟩
  | case5 _ _ _ _ _ _ _ ih => obtain ⟨gap, cut⟩ := ih; exact ⟨_, cutFurther cut⟩
  | case6 _ _ _ _ _ _ _ _ ih => obtain ⟨gap, cut⟩ := ih; exact ⟨_, cutFurther cut⟩
  | case7 => exact ⟨[], cutNothing _ _⟩
  | case8 _ _ _ _ _ ih => obtain ⟨gap, cut⟩ := ih; exact ⟨_, cutFurther cut⟩
  | case9 _ _ _ _ _ ih => obtain ⟨gap, cut⟩ := ih; exact ⟨_, cutFurther cut⟩
  | case10 _ _ _ _ ih => obtain ⟨gap, cut⟩ := ih; exact ⟨_, cutFurther (cutFurther cut)⟩
  | case11 _ _ _ _ _ _ ih => obtain ⟨gap, cut⟩ := ih; exact ⟨_, cutFurther cut⟩

/- A token begins behind the one before it, and only the end token is empty. -/
inductive Token.Row : (offset : Nat) → List Token → Prop where
  | last {offset t} (ends : t.isEnd = true) (behind : offset ≤ t.start) (empty : t.stop = t.start) :
      Row offset [t]
  | more {offset t ts} (plain : t.isEnd = false) (behind : offset ≤ t.start)
      (wide : t.start < t.stop) (rest : Row t.stop ts) : Row offset (t :: ts)

namespace Token

theorem rowBehind {offset : Nat} {t : Token} {ts : List Token} (row : Row offset (t :: ts)) :
    offset ≤ t.start := by
  cases row with
  | last _ behind _ => exact behind
  | more _ behind _ _ => exact behind

theorem rowLower {offset : Nat} {ts : List Token} (row : Row offset ts) : ∀ t ∈ ts, offset ≤ t.start := by
  induction row with
  | last _ behind _ =>
    intro t member
    rwa [List.mem_singleton.mp member]
  | more _ behind wide _ ih =>
    intro t member
    rcases List.mem_cons.mp member with rfl | later
    · exact behind
    · exact Nat.le_trans (Nat.le_trans behind (Nat.le_of_lt wide)) (ih t later)

theorem rowSorted {offset : Nat} {ts : List Token} (row : Row offset ts) :
    ts.Pairwise fun t u => t.start < u.start := by
  induction row with
  | last => exact List.pairwise_singleton _ _
  | more _ _ wide rest ih =>
    exact .cons (fun u later => Nat.lt_of_lt_of_le wide (rowLower rest u later)) ih

theorem rowEnds {offset : Nat} {t : Token} {ts : List Token} (row : Row offset (t :: ts))
    (ends : t.isEnd = true) : ts = [] := by
  cases row with
  | last => rfl
  | more plain => exact absurd (ends.symm.trans plain) Bool.noConfusion

end Token

namespace Scan

/- A gap and then the token are taken off the front of the text. -/
theorem nextCut (offset : Nat) (text : List Char) :
    let s := next offset text
    ∃ gap behind piece, Cut offset text gap s.token.start behind ∧
      Cut s.token.start behind piece s.token.stop s.rest ∧ (s.token.isEnd = true ↔ piece = []) := by
  obtain ⟨gap, cut⟩ := Trivia.skipCut .between false offset text
  simp only [next]
  generalize Trivia.skip .between false offset text = skipped at cut
  unfold afterGap
  split
  · rename_i none
    rw [none] at cut
    exact ⟨gap, [], [], cut, cutNothing _ _, fun _ => rfl, fun _ => rfl⟩
  · rename_i c cs some
    rw [some] at cut
    obtain ⟨piece, there, cut'⟩ := Lexeme.readCut skipped.offset c cs
    refine ⟨gap, c :: cs, piece, cut, cut', fun ends => ?_, fun none => absurd none there⟩
    exact absurd (beq_iff_eq.mp ends) (Lexeme.readNoEnd _ _ _)

theorem nextPlace (offset : Nat) (text : List Char) :
    let t := (next offset text).token
    offset ≤ t.start ∧ (t.isEnd = true → t.stop = t.start) ∧ (t.isEnd = false → t.start < t.stop) := by
  obtain ⟨gap, behind, piece, before, own, ends⟩ := nextCut offset text
  refine ⟨before.2 ▸ Nat.le_add_right _ _, fun yes => ?_, fun no => ?_⟩
  · rw [own.2, ends.mp yes]
    rfl
  · have some : piece ≠ [] := fun none => absurd ((ends.mpr none).symm.trans no) Bool.noConfusion
    exact Nat.lt_of_lt_of_eq (Nat.lt_add_of_pos_right (byteLengthPos some)) own.2.symm

theorem allRow (offset : Nat) (text : List Char) :
    Token.Row offset ((all offset text).map (·.token)) := by
  fun_induction all offset text with
  | case1 offset text s ends =>
    obtain ⟨behind, empty, _⟩ := nextPlace offset text
    exact .last ends behind (empty ends)
  | case2 offset text s plain _ ih =>
    obtain ⟨behind, _, wide⟩ := nextPlace offset text
    exact .more (Bool.eq_false_iff.mpr plain) behind (wide (Bool.eq_false_iff.mpr plain)) ih

section
variable {whole before text : List Char} {offset : Nat}

theorem nextBoundary (split : before ++ text = whole) (reached : byteLength before = offset) :
    let s := next offset text
    Boundary whole s.token.start ∧ ∃ before', before' ++ s.rest = whole ∧
      byteLength before' = s.token.stop := by
  intro s
  obtain ⟨gap, behind, piece, ahead, own, _⟩ := nextCut offset text
  refine ⟨⟨before ++ gap, behind, ?_, ?_⟩, before ++ (gap ++ piece), ?_, ?_⟩
  · rw [List.append_assoc, ahead.1, split]
  · rw [byteLengthAppend, reached, ← ahead.2]
  · rw [List.append_assoc, List.append_assoc, own.1, ahead.1, split]
  · rw [byteLengthAppend, byteLengthAppend, reached, ← Nat.add_assoc, ← ahead.2, ← own.2]

/- Tokens begin and end on boundaries. -/
theorem allBoundaries (split : before ++ text = whole) (reached : byteLength before = offset) :
    ∀ t ∈ (all offset text).map (·.token), Boundary whole t.start ∧ Boundary whole t.stop := by
  fun_induction all offset text generalizing before with
  | case1 =>
    obtain ⟨starts, before', split', reached'⟩ := nextBoundary split reached
    intro t member
    cases List.mem_singleton.mp member
    exact ⟨starts, before', _, split', reached'⟩
  | case2 =>
    rename_i ih
    obtain ⟨starts, before', split', reached'⟩ := nextBoundary split reached
    intro t member
    rcases List.mem_cons.mp member with rfl | later
    · exact ⟨starts, before', _, split', reached'⟩
    · exact ih split' reached' t later

end

end Scan
end CallGuard
