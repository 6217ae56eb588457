import CallGuard.Proofs.Expression.Syntax
import CallGuard.Proofs.Token.Reading
import Mathlib.Tactic

/-! Reading written tokens back: a token with a blank or a semicolon behind it is read as what it is. -/
namespace CallGuard

namespace Mark

theorem lexed (m : Mark) : Lexed m.spelling m.kind m.value.toList [] := by
  cases m with
  | word w =>
    have shape := w.shape
    unfold isWord at shape
    split at shape
    · rename_i c cs spelled
      obtain ⟨starts, parts⟩ := Bool.and_eq_true_iff.mp shape
      have all : ∀ d ∈ c :: cs, isWordPart d = true :=
        List.forall_mem_cons.mpr ⟨wordStartPart starts, List.all_eq_true.mp parts⟩
      have run : Number.takeRun isWordPart (c :: cs ++ []) = (c :: cs, []) := by
        rw [Number.takeRun, List.takeWhile_append_of_pos all, List.dropWhile_append_of_pos all]
        simp
      have kind : wordKind (c :: cs) = w.kind := by
        rw [Word.kind, ← String.ofList_toList (s := w.text), spelled]
        rfl
      rw [spelling, value, spelled, Mark.kind, ← kind]
      exact .word starts run
    · cases shape
  | number n =>
    have begins := n.begins
    have whole := n.whole
    rw [spelling, value]
    cases spelled : n.text.toList with
    | nil => rw [spelled] at begins; cases begins
    | cons c cs =>
      rw [spelled] at begins whole
      exact .number (by rwa [List.append_nil]) (by rwa [List.append_nil])
  | punct p => cases p <;> exact .punct rfl rfl rfl

def lex (m : Mark) : Lex := ⟨m.kind, m.value, false⟩

def piece (m : Mark) : Piece := ⟨m.spelling, m.kind, m.value.toList⟩

/- The pieces of a single line. -/
def pieces (marks : List Mark) : List (Piece × Bool) := marks.map fun m => (m.piece, false)

theorem pieceLex (m : Mark) : m.piece.lex false = m.lex :=
  congrArg (Lex.mk m.kind · false) (String.ofList_toList ..)

end Mark

def Lex.stop : Lex := ⟨.endOfFile, "", false⟩

/-! ### Rows of tokens -/

theorem blanksGap (blanks : Nat) : Gap .between (List.replicate blanks ' ') .between :=
  .spaces fun c member => by rw [List.eq_of_mem_replicate member]; decide

theorem blanksStand (blanks : Nat) : Stand.start.past (List.replicate blanks ' ') .between = .start := by
  have unbroken : (List.replicate blanks ' ').any isLineBreak = false :=
    List.any_eq_false.mpr fun c member => by rw [List.eq_of_mem_replicate member]; decide
  rw [Stand.past, unbroken]
  rfl

/- One more token in front, with blanks before it. -/
theorem Tokens.mark (m : Mark) (gap : Nat) {text : List Char} {ps : List (Piece × Bool)} {s : Stand}
    (lexed : Lexed m.spelling m.kind m.value.toList (text ++ [])) (more : Tokens [] .start text ps s) :
    Tokens [] .start (List.replicate gap ' ' ++ (m.spelling ++ text)) ((m.piece, false) :: ps) s := by
  have tokens := Tokens.token (s := .start) (blanksGap gap) lexed more
  rwa [blanksStand] at tokens

theorem joinTokens (marks : List Mark) (some : marks ≠ []) (blanks gap : Nat) :
    Tokens [] .start
      (List.replicate gap ' ' ++ (Mark.join marks ++ (List.replicate blanks ' ' ++ [';'])))
      (Mark.pieces (marks ++ [.punct .semicolon])) .start := by
  induction marks generalizing gap with
  | nil => exact absurd rfl some
  | cons m marks ih =>
    cases marks with
    | nil =>
      obtain ⟨b, rest, apart, behind⟩ : ∃ b rest, separates b = true ∧
          List.replicate blanks ' ' ++ [';'] = b :: rest := by
        cases blanks with
        | zero => exact ⟨';', [], rfl, rfl⟩
        | succ blanks => exact ⟨' ', _, rfl, rfl⟩
      have last := Tokens.mark (.punct .semicolon) blanks (Mark.lexed _) (.gap (s := .start) .nil)
      refine Tokens.mark m gap ?_ last
      rw [List.append_nil]
      exact behind ▸ (lexedBehind (x := []) apart).mpr m.lexed
    | cons m' marks =>
      rw [Mark.join, List.append_assoc, List.cons_append]
      · refine Tokens.mark m gap ?_ (ih (List.cons_ne_nil _ _) 1)
        exact (lexedBehind (x := []) (b := ' ') rfl).mpr m.lexed
      · exact List.cons_ne_nil _ _

namespace Scan

theorem cleanJoin (marks : List Mark) (some : marks ≠ []) (blanks gap offset : Nat) :
    Clean (all offset (List.replicate gap ' ' ++
        (Mark.join marks ++ (List.replicate blanks ' ' ++ [';']))))
      (marks.map Mark.lex ++ [(Mark.punct .semicolon).lex, Lex.stop]) := by
  have clean := tokensClean (joinTokens marks some blanks gap) rfl nofun offset
  have same : (Mark.pieces (marks ++ [.punct .semicolon])).map (fun p => p.1.lex p.2) ++
      [⟨.endOfFile, "", Stand.start.broken⟩] =
      marks.map Mark.lex ++ [(Mark.punct .semicolon).lex, Lex.stop] := by
    simp [Mark.pieces, Function.comp_def, Mark.pieceLex, Stand.start, Lex.stop]
  rwa [same] at clean

end Scan

end CallGuard
