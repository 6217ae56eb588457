import CallGuard.Proofs.Token.Separate

/-! What stands between tokens is a gap: blanks, line ends and comments. Gaps are described apart from
offsets, and the description is shown to be what the scanner skips. -/
namespace CallGuard

inductive GapMode
  | between | line | block
  deriving DecidableEq

def TriviaMode.gap : TriviaMode → GapMode
  | .between => .between
  | .lineComment => .line
  | .blockComment _ => .block

/- Blanks, line ends and comments that lead from one mode to another. -/
inductive Gap : GapMode → List Char → GapMode → Prop where
  | nil {m} : Gap m [] m
  | space {c g m} (space : isSpace c = true) (more : Gap .between g m) : Gap .between (c :: g) m
  | opensLine {g m} (more : Gap .line g m) : Gap .between ('/' :: '/' :: g) m
  | opensBlock {g m} (more : Gap .block g m) : Gap .between ('/' :: '*' :: g) m
  | endsLine {c g m} (ends : isLineBreak c = true) (more : Gap .between g m) : Gap .line (c :: g) m
  | line {c g m} (within : isLineBreak c = false) (more : Gap .line g m) : Gap .line (c :: g) m
  | closes {g m} (more : Gap .between g m) : Gap .block ('*' :: '/' :: g) m
  | block {c d g m} (within : ¬ (c = '*' ∧ d = '/')) (more : Gap .block (d :: g) m) :
      Gap .block (c :: d :: g) m

namespace Gap
variable {m m' m'' : GapMode} {g g' : List Char}

theorem append (one : Gap m g m') (two : Gap m' g' m'') : Gap m (g ++ g') m'' := by
  induction one with
  | nil => exact two
  | space space _ ih => exact .space space (ih two)
  | opensLine _ ih => exact .opensLine (ih two)
  | opensBlock _ ih => exact .opensBlock (ih two)
  | endsLine ends _ ih => exact .endsLine ends (ih two)
  | line within _ ih => exact .line within (ih two)
  | closes _ ih => exact .closes (ih two)
  | block within _ ih => exact .block within (ih two)

theorem spaces (all : ∀ c ∈ g, isSpace c = true) : Gap .between g .between := by
  induction g with
  | nil => exact .nil
  | cons c g ih =>
    exact .space (all c List.mem_cons_self) (ih fun d member => all d (List.mem_cons_of_mem _ member))

end Gap

def opensComment : List Char → Bool
  | '/' :: '/' :: _ | '/' :: '*' :: _ => true
  | _ => false

/- A token begins here, not a blank, the end of a line or a comment. -/
structure Solid (c : Char) (cs : List Char) : Prop where
  space : isSpace c = false
  comment : opensComment (c :: cs) = false

theorem noComment {c : Char} (other : c ≠ '/') (cs : List Char) : opensComment (c :: cs) = false := by
  unfold opensComment
  split <;> simp_all

namespace Trivia
variable {c : Char} {cs : List Char}

theorem skipSpace (space : isSpace c = true) (lineBreak : Bool) (offset : Nat) (cs : List Char) :
    skip .between lineBreak offset (c :: cs) =
      skip .between (isLineBreak c || lineBreak) (offset + c.utf8Size) cs := by
  have other : c ≠ '/' := by
    rintro rfl
    exact absurd space (by decide)
  rw [skip]
  · cases ends : isLineBreak c with
    | true => simp
    | false =>
      rw [isSpace, ends, Bool.false_or] at space
      simp [space]
  · exact fun _ same => absurd same other
  · exact fun _ same => absurd same other

theorem skipSolid (solid : Solid c cs) (lineBreak : Bool) (offset : Nat) :
    skip .between lineBreak offset (c :: cs) = ⟨c :: cs, offset, lineBreak, none⟩ := by
  obtain ⟨line, blank⟩ := Bool.or_eq_false_iff.mp solid.space
  rw [skip]
  · simp [line, blank]
  · rintro tail rfl rfl
    exact Bool.noConfusion solid.comment
  · rintro tail rfl rfl
    exact Bool.noConfusion solid.comment

end Trivia

theorem gapSkip {m m' : GapMode} {g : List Char} (gap : Gap m g m') :
    ∀ mode broken offset rest, mode.gap = m → ∃ mode' offset', mode'.gap = m' ∧
      Trivia.skip mode broken offset (g ++ rest) =
        Trivia.skip mode' (broken || g.any isLineBreak) offset' rest := by
  induction gap with
  | nil => exact fun mode broken offset rest same => ⟨mode, offset, same, by simp⟩
  | @space c g m space _ ih =>
    rintro ⟨⟩ broken offset rest ⟨⟩
    rw [List.cons_append, Trivia.skipSpace space, List.any_cons, ← Bool.or_assoc, Bool.or_comm broken]
    exact ih .between _ _ _ rfl
  | opensLine _ ih =>
    rintro ⟨⟩ broken offset rest ⟨⟩
    exact ih .lineComment _ _ _ rfl
  | opensBlock _ ih =>
    rintro ⟨⟩ broken offset rest ⟨⟩
    exact ih (.blockComment _) _ _ _ rfl
  | endsLine ends _ ih =>
    rintro ⟨⟩ broken offset rest ⟨⟩
    rw [List.cons_append, Trivia.skip, if_pos ends, List.any_cons, ends, Bool.true_or, Bool.or_true]
    exact ih .between true _ _ rfl
  | line within _ ih =>
    rintro ⟨⟩ broken offset rest ⟨⟩
    rw [List.cons_append, Trivia.skip, if_neg (by simp [within]), List.any_cons, within, Bool.false_or]
    exact ih .lineComment _ _ _ rfl
  | closes _ ih =>
    rintro ⟨⟩ broken offset rest ⟨⟩
    exact ih .between _ _ _ rfl
  | @block c d g m within _ ih =>
    rintro ⟨⟩ broken offset rest ⟨⟩
    rw [List.cons_append, Trivia.skip, List.any_cons, ← Bool.or_assoc]
    · exact ih (.blockComment _) _ _ _ rfl
    · rintro tail rfl same
      exact within ⟨rfl, (List.cons.inj same).1⟩

/- What is skipped without a fault is a gap. -/
theorem skipGap (mode : TriviaMode) (broken : Bool) (offset : Nat) (text : List Char) :
    let skipped := Trivia.skip mode broken offset text
    skipped.error? = none → ∃ g m, text = g ++ skipped.rest ∧ Gap mode.gap g m ∧ m ≠ .block ∧
      skipped.lineBreak = (broken || g.any isLineBreak) ∧
      ∀ c cs, skipped.rest = c :: cs → m = .between ∧ Solid c cs := by
  dsimp only
  fun_induction Trivia.skip mode broken offset text with
  | case1 => rintro ⟨⟩
  | case2 mode broken offset other =>
    refine fun _ => ⟨[], _, rfl, .nil, ?_, by simp, by simp⟩
    cases mode <;> simp_all [TriviaMode.gap]
  | case3 _ _ _ ih =>
    intro fine
    obtain ⟨g, m, whole, gap, rest⟩ := ih fine
    exact ⟨_, m, congrArg (fun cs => '/' :: '/' :: cs) whole, .opensLine gap, rest⟩
  | case4 _ _ _ ih =>
    intro fine
    obtain ⟨g, m, whole, gap, rest⟩ := ih fine
    exact ⟨_, m, congrArg (fun cs => '/' :: '*' :: cs) whole, .opensBlock gap, rest⟩
  | case5 _ _ c _ _ _ ends ih =>
    intro fine
    obtain ⟨g, m, whole, gap, closed, flag, rest⟩ := ih fine
    exact ⟨_, m, congrArg (c :: ·) whole, .space (by simp [isSpace, ends]) gap, closed, by
      simp [flag, ends], rest⟩
  | case6 _ _ c _ _ _ inside blank ih =>
    intro fine
    obtain ⟨g, m, whole, gap, closed, flag, rest⟩ := ih fine
    exact ⟨_, m, congrArg (c :: ·) whole, .space (by simp [isSpace, blank]) gap, closed, by
      simp [flag, inside], rest⟩
  | case7 _ _ c cs noLine noBlock noEnd noBlank =>
    refine fun _ => ⟨[], .between, rfl, .nil, by simp, by simp, ?_⟩
    rintro _ _ ⟨⟩
    refine ⟨rfl, by simp_all [isSpace], ?_⟩
    unfold opensComment
    split <;> simp_all
  | case8 _ _ c _ ends ih =>
    intro fine
    obtain ⟨g, m, whole, gap, closed, flag, rest⟩ := ih fine
    exact ⟨_, m, congrArg (c :: ·) whole, .endsLine ends gap, closed, by simp [flag, ends], rest⟩
  | case9 _ _ c _ within ih =>
    intro fine
    obtain ⟨g, m, whole, gap, closed, flag, rest⟩ := ih fine
    exact ⟨_, m, congrArg (c :: ·) whole, .line (by simpa using within) gap, closed, by
      simp [flag, within], rest⟩
  | case10 _ _ _ _ ih =>
    intro fine
    obtain ⟨g, m, whole, gap, rest⟩ := ih fine
    exact ⟨_, m, congrArg (fun cs => '*' :: '/' :: cs) whole, .closes gap, rest⟩
  | case11 _ start _ c cs other ih =>
    intro fine
    obtain ⟨g, m, whole, gap, closed, flag, rest⟩ := ih fine
    cases g with
    | nil =>
      cases gap
      exact absurd rfl closed
    | cons d g =>
      refine ⟨_, m, congrArg (c :: ·) whole, .block (fun close => ?_) gap, closed, by
        simp [flag, Bool.or_assoc], rest⟩
      obtain ⟨rfl, rfl⟩ := close
      exact other _ rfl whole

end CallGuard
