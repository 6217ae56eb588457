import CallGuard.Proofs.Token.Pieces

/-! A text without lexical faults is a row of gaps and pieces. Rows are put together from parts, each
described with the text that follows it; what follows a part matters only where the part ends with a
token that could go on. -/
namespace CallGuard

/- Where a text stands between two tokens: in which gap, and whether a line end was passed in it. -/
structure Stand where
  mode : GapMode
  broken : Bool

namespace Stand

def start : Stand := ⟨.between, false⟩

def past (s : Stand) (g : List Char) (m : GapMode) : Stand := ⟨m, s.broken || g.any isLineBreak⟩

theorem pastPast (s : Stand) (g g' : List Char) (m m' : GapMode) :
    (s.past g m).past g' m' = s.past (g ++ g') m' := by
  simp [past, Bool.or_assoc]

end Stand

structure Piece where
  text : List Char
  kind : TokenKind
  value : List Char

/- What a token is, apart from its place. -/
structure Lex where
  kind : TokenKind
  value : String
  broken : Bool

def Token.lex (t : Token) : Lex := ⟨t.kind, t.value, t.afterLineBreak⟩

def Piece.lex (p : Piece) (broken : Bool) : Lex := ⟨p.kind, String.ofList p.value, broken⟩

/- The tokens of a text with `rest` behind it, and for each of them whether it begins a line. -/
inductive Tokens (rest : List Char) : Stand → List Char → List (Piece × Bool) → Stand → Prop where
  | gap {s g m} (gap : Gap s.mode g m) : Tokens rest s g [] (s.past g m)
  | token {s g piece kind value text ps s'} (gap : Gap s.mode g .between)
      (lexed : Lexed piece kind value (text ++ rest)) (more : Tokens rest .start text ps s') :
      Tokens rest s (g ++ (piece ++ text)) ((⟨piece, kind, value⟩, (s.past g .between).broken) :: ps) s'

namespace Tokens
variable {rest text x y g : List Char} {s s' s'' : Stand} {m : GapMode} {ps qs : List (Piece × Bool)}

theorem behindGap (gap : Gap s.mode g m) (tokens : Tokens rest (s.past g m) text ps s') :
    Tokens rest s (g ++ text) ps s' := by
  cases tokens with
  | gap gap' =>
    rw [Stand.pastPast]
    exact .gap (gap.append gap')
  | token gap' lexed more =>
    rw [Stand.pastPast, ← List.append_assoc]
    exact .token (gap.append gap') lexed more

theorem append (one : Tokens (y ++ rest) s x ps s') (two : Tokens rest s' y qs s'') :
    Tokens rest s (x ++ y) (ps ++ qs) s'' := by
  induction one with
  | gap gap => exact behindGap gap two
  | token gap lexed _ ih =>
    rw [List.append_assoc, List.append_assoc]
    exact .token gap (by rwa [List.append_assoc]) (ih two)

/- What follows may be replaced where no piece notices. -/
theorem follow {rest' : List Char} (tokens : Tokens rest s text ps s')
    (unseen : ∀ x piece kind value,
      Lexed piece kind value (x ++ rest) → Lexed piece kind value (x ++ rest')) :
    Tokens rest' s text ps s' := by
  induction tokens with
  | gap gap => exact .gap gap
  | token gap lexed _ ih => exact .token gap (unseen _ _ _ _ lexed) ih

end Tokens

/-! ### What the scanner finds -/

namespace Scan

/- The tokens, all of them without a fault. -/
def Clean (scans : List Scan) (lexes : List Lex) : Prop :=
  scans.map (·.token.lex) = lexes ∧ ∀ s ∈ scans, s.error? = none

theorem nextEnd {g : List Char} {m : GapMode} (gap : Gap .between g m) (closed : m ≠ .block) (offset : Nat) :
    let s := next offset g
    s.token.lex = ⟨.endOfFile, "", (Stand.start.past g m).broken⟩ ∧ s.error? = none := by
  obtain ⟨mode, offset', same, skipped⟩ := gapSkip gap .between false offset [] rfl
  rw [List.append_nil] at skipped
  simp only [next, skipped]
  cases mode with
  | between | lineComment => exact ⟨rfl, rfl⟩
  | blockComment => exact absurd same.symm closed

theorem nextToken {g piece value rest : List Char} {kind : TokenKind} (gap : Gap .between g .between)
    (lexed : Lexed piece kind value rest) (offset : Nat) :
    let s := next offset (g ++ (piece ++ rest))
    s.token.lex = ⟨kind, String.ofList value, (Stand.start.past g .between).broken⟩ ∧ s.error? = none ∧
      s.rest = rest := by
  obtain ⟨c, cs, whole, solid, read⟩ := lexedRead lexed
  obtain ⟨mode, offset', same, skipped⟩ := gapSkip gap .between false offset (c :: cs) rfl
  obtain ⟨stop, read⟩ := read offset'
  cases mode with
  | between =>
    rw [Trivia.skipSolid solid] at skipped
    simp only [next, whole, skipped, afterGap, read]
    exact ⟨rfl, rfl, trivial⟩
  | lineComment | blockComment => cases same

theorem allEnd {offset : Nat} {text : List Char} (ends : (next offset text).token.isEnd = true) :
    all offset text = [next offset text] := by
  rw [all]
  exact dif_pos ends

theorem allMore {offset : Nat} {text : List Char} (more : ¬ (next offset text).token.isEnd = true) :
    all offset text =
      next offset text :: all (next offset text).token.stop (next offset text).rest := by
  rw [all]
  exact dif_neg more

theorem tokensClean {s s' : Stand} {text : List Char} {ps : List (Piece × Bool)}
    (tokens : Tokens [] s text ps s') (begins : s = .start) (closed : s'.mode ≠ .block) (offset : Nat) :
    Clean (all offset text) (ps.map (fun p => p.1.lex p.2) ++ [⟨.endOfFile, "", s'.broken⟩]) := by
  induction tokens generalizing offset with
  | gap gap =>
    subst begins
    obtain ⟨same, fine⟩ := nextEnd gap closed offset
    rw [allEnd (beq_iff_eq.mpr (congrArg Lex.kind same))]
    exact ⟨congrArg (fun l => [l]) same, List.forall_mem_singleton.mpr fine⟩
  | token gap lexed _ ih =>
    subst begins
    rw [List.append_nil] at lexed
    obtain ⟨same, fine, left⟩ := nextToken gap lexed offset
    have more := fun ends =>
      lexedKind lexed ((congrArg Lex.kind same).symm.trans (beq_iff_eq.mp ends))
    rw [allMore more, left]
    obtain ⟨lexes, fines⟩ := ih rfl closed _
    exact ⟨congrArg₂ _ same lexes, List.forall_mem_cons.mpr ⟨fine, fines⟩⟩

theorem nextPieces (offset : Nat) (text : List Char) (fine : (next offset text).error? = none) :
    (∃ m, Gap .between text m ∧ m ≠ .block) ∨
      (next offset text).token.isEnd = false ∧ ∃ g piece kind value,
        text = g ++ (piece ++ (next offset text).rest) ∧ Gap .between g .between ∧
          Lexed piece kind value (next offset text).rest := by
  have skipped := skipGap .between false offset text
  unfold next at fine ⊢
  generalize Trivia.skip .between false offset text = t at fine skipped ⊢
  unfold afterGap at fine ⊢
  split
  · rename_i left
    rw [left] at fine
    obtain ⟨g, m, whole, gap, closed, _⟩ := skipped fine
    rw [left, List.append_nil] at whole
    exact .inl ⟨m, whole ▸ gap, closed⟩
  · rename_i c cs left
    rw [left] at fine
    obtain ⟨outside, inside⟩ : t.error? = none ∧ (Lexeme.read t.offset c cs).error? = none := by
      simpa using fine
    obtain ⟨g, m, whole, gap, _, _, begins⟩ := skipped outside
    obtain ⟨rfl, solid⟩ := begins c cs left
    obtain ⟨piece, front, lexed⟩ := Lexeme.readReads t.offset solid inside
    refine .inr ⟨beq_eq_false_iff_ne.mpr (Lexeme.readNoEnd _ _ _), g, piece, _, _, ?_, gap, lexed⟩
    rw [whole, left, front]

/- Every text without lexical faults is such a row. -/
theorem cleanTokens (offset : Nat) (text : List Char) :
    (∀ s ∈ all offset text, s.error? = none) →
      ∃ ps s, Tokens [] .start text ps s ∧ s.mode ≠ .block := by
  fun_induction all offset text with
  | case1 offset text s ends =>
    intro fine
    rcases nextPieces offset text (fine _ List.mem_cons_self) with ⟨m, gap, closed⟩ | ⟨more, _⟩
    · exact ⟨[], _, .gap gap, closed⟩
    · exact absurd (more.symm.trans ends) Bool.false_ne_true
  | case2 offset text s more _ ih =>
    intro fine
    obtain ⟨first, others⟩ := List.forall_mem_cons.mp fine
    rcases nextPieces offset text first with ⟨m, gap, closed⟩ | ⟨_, g, piece, kind, value, whole, gap, lexed⟩
    · exact ⟨[], _, .gap gap, closed⟩
    · obtain ⟨ps, s', tokens, closed⟩ := ih others
      rw [whole]
      exact ⟨_, s', .token gap (by rwa [List.append_nil]) tokens, closed⟩

end Scan

/-! ### What follows a piece -/

namespace Number
variable {f : List Char → Split} {b : Char}

theorem stopsIff (stops : Stops f b) {piece x r : List Char} :
    f (piece ++ (x ++ b :: r)) = (piece, x ++ b :: r) ↔ f (piece ++ x) = (piece, x) := by
  rw [← List.append_assoc, stops (piece ++ x) r]
  simp [Prod.ext_iff]

end Number

section
variable {b : Char}

/- Only a point needs the character behind it. -/
theorem startsDigit {c : Char} (other : c ≠ '.') (cs : List Char) :
    Lexeme.startsNumber (c :: cs) = isAsciiDigit c := by
  unfold Lexeme.startsNumber
  split <;> simp_all

theorem numberBehind (digit : isAsciiDigit b = false) (c : Char) (x r : List Char) :
    Lexeme.startsNumber (c :: (x ++ b :: r)) = Lexeme.startsNumber (c :: x) := by
  by_cases point : c = '.'
  · subst point
    cases x with
    | nil => exact digit
    | cons d x => rfl
  · rw [startsDigit point, startsDigit point]

theorem commentBehind (slash : b ≠ '/') (star : b ≠ '*') (c : Char) (x r : List Char) :
    opensComment (c :: (x ++ b :: r)) = opensComment (c :: x) := by
  by_cases other : c = '/'
  · subst other
    cases x with
    | nil =>
      unfold opensComment
      split <;> simp_all
    | cons d x =>
      by_cases line : d = '/'
      · subst line; rfl
      · by_cases block : d = '*'
        · subst block; rfl
        · unfold opensComment
          split <;> split <;> simp_all
  · rw [noComment other, noComment other]

/- A character that separates hides what stands behind it. -/
theorem lexedBehind (apart : separates b = true) {piece value x r : List Char} {kind : TokenKind} :
    Lexed piece kind value (x ++ b :: r) ↔ Lexed piece kind value x := by
  have word {c : Char} {cs : List Char} :=
    @Number.stopsIff _ b (Number.takeRunStops (separatesNoWord apart)) (c :: cs) x r
  have number {c : Char} {cs : List Char} :=
    @Number.stopsIff _ b (Number.splitStops apart) (c :: cs) x r
  have begins (c : Char) (cs : List Char) :
      Lexeme.startsNumber (c :: cs ++ (x ++ b :: r)) = Lexeme.startsNumber (c :: cs ++ x) := by
    rw [← List.append_assoc]
    exact numberBehind (separatesNoDigit apart) c (cs ++ x) r
  have opens (c : Char) (cs : List Char) :
      opensComment (c :: cs ++ (x ++ b :: r)) = opensComment (c :: cs ++ x) := by
    rw [← List.append_assoc]
    exact commentBehind (separatesOther apart (by decide) rfl) (separatesOther apart (by decide) rfl) c
      (cs ++ x) r
  have sign (p : Punctuator) :=
    p.startStops (Punctuator.separatesPlain apart) (separatesNoDigit apart) x r
  constructor <;> intro lexed
  · cases lexed with
    | word starts run => exact .word starts (word.mp run)
    | number first run => exact .number ((begins _ _).symm.trans first) (number.mp run)
    | string quotes closes => exact .string quotes closes
    | template closes => exact .template closes
    | @punct p _ starts plain comment =>
      obtain ⟨c, cs, spelled, _⟩ := punctStart p
      refine .punct ((sign p).mp starts) ?_ ?_
      · rw [← plain, spelled, begins]
      · rw [← comment, spelled, opens]
  · cases lexed with
    | word starts run => exact .word starts (word.mpr run)
    | number first run => exact .number ((begins _ _).trans first) (number.mpr run)
    | string quotes closes => exact .string quotes closes
    | template closes => exact .template closes
    | @punct p _ starts plain comment =>
      obtain ⟨c, cs, spelled, _⟩ := punctStart p
      refine .punct ((sign p).mpr starts) ?_ ?_
      · rw [← plain, spelled, begins]
      · rw [← comment, spelled, opens]

end

theorem Tokens.behind {b : Char} (apart : separates b = true) {r text : List Char} {s s' : Stand}
    {ps : List (Piece × Bool)} : Tokens (b :: r) s text ps s' ↔ Tokens [] s text ps s' := by
  constructor <;> intro tokens <;> refine tokens.follow fun x piece kind value lexed => ?_
  · rw [List.append_nil]
    exact (lexedBehind apart).mp lexed
  · rw [List.append_nil] at lexed
    exact (lexedBehind apart).mpr lexed

/-! ### Parts of a text -/

/- The tokens of a part, whether or not a line end was passed before it. -/
def Reads (rest : List Char) (m : GapMode) (text : List Char) (ps : List Piece) (m' : GapMode) : Prop :=
  ∀ broken, ∃ qs broken', Tokens rest ⟨m, broken⟩ text qs ⟨m', broken'⟩ ∧ qs.map Prod.fst = ps

/- The tokens of a part that begins and ends between tokens, whatever stands behind it. -/
def Apart (text : List Char) (ps : List Piece) : Prop :=
  ∀ rest, Reads rest .between text ps .between

def Punctuator.piece (p : Punctuator) : Piece := ⟨p.spelling.toList, .punct p, []⟩

namespace Reads
variable {rest x y g : List Char} {m m' m'' : GapMode} {ps qs : List Piece}

theorem gap (gap : Gap m g m') : Reads rest m g [] m' := fun _ => ⟨[], _, .gap gap, rfl⟩

theorem token {piece value : List Char} {kind : TokenKind} (lexed : Lexed piece kind value rest) :
    Reads rest .between piece [⟨piece, kind, value⟩] .between := by
  intro broken
  have tokens := @Tokens.token rest ⟨.between, broken⟩ [] piece kind value [] [] _ .nil lexed (.gap .nil)
  rw [List.nil_append, List.append_nil] at tokens
  exact ⟨_, _, tokens, rfl⟩

theorem append (one : Reads (y ++ rest) m x ps m') (two : Reads rest m' y qs m'') :
    Reads rest m (x ++ y) (ps ++ qs) m'' := by
  intro broken
  obtain ⟨us, broken', first, same⟩ := one broken
  obtain ⟨vs, broken'', second, same'⟩ := two broken'
  exact ⟨us ++ vs, broken'', first.append second, by rw [List.map_append, same, same']⟩

theorem behind {b : Char} (apart : separates b = true) {r : List Char} :
    Reads (b :: r) m x ps m' ↔ Reads [] m x ps m' :=
  forall_congr' fun _ => exists_congr fun _ => exists_congr fun _ =>
    and_congr_left fun _ => Tokens.behind apart

end Reads

namespace Apart
variable {x y g : List Char} {ps qs : List Piece}

theorem nil : Apart [] [] := fun _ => .gap .nil

theorem append (one : Apart x ps) (two : Apart y qs) : Apart (x ++ y) (ps ++ qs) :=
  fun rest => (one (y ++ rest)).append (two rest)

theorem gap (gap : Gap .between g .between) : Apart g [] := fun _ => .gap gap

/- A part that ends with a blank or a sign. -/
theorem ends (one : Reads [] .between x ps .between) (two : Apart y qs)
    (first : y.head?.any separates = true) : Apart (x ++ y) (ps ++ qs) := by
  cases y with
  | nil => cases first
  | cons b y => exact fun rest => ((Reads.behind first).mpr one).append (two rest)

theorem sign (p : Punctuator)
    (alone : p ∈ [.semicolon, .openBrace, .closeBrace, .openParen, .closeParen]) :
    Apart p.spelling.toList [p.piece] := by
  intro rest
  refine .token ?_
  simp only [List.mem_cons, List.not_mem_nil, or_false] at alone
  rcases alone with rfl | rfl | rfl | rfl | rfl <;> exact .punct rfl (by cases rest <;> rfl) rfl

end Apart

/- The kinds and values of the tokens, all of them without a fault. -/
def Scan.Shows (scans : List Scan) (ps : List Piece) : Prop :=
  scans.map (fun s => (s.token.kind, s.token.value)) =
      ps.map (fun p => (p.kind, String.ofList p.value)) ++ [(.endOfFile, "")] ∧
    ∀ s ∈ scans, s.error? = none

theorem Scan.readsShows {text : List Char} {ps : List Piece} {m : GapMode}
    (reads : Reads [] .between text ps m) (closed : m ≠ .block) (offset : Nat) :
    Shows (all offset text) ps := by
  obtain ⟨qs, broken, tokens, rfl⟩ := reads false
  obtain ⟨lexes, fine⟩ := tokensClean tokens rfl closed offset
  have shown := congrArg (List.map fun l : Lex => (l.kind, l.value)) lexes
  rw [List.map_map, List.map_append, List.map_map] at shown
  exact ⟨by rw [List.map_map]; exact shown, fine⟩

end CallGuard
