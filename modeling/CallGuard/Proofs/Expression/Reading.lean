import CallGuard.Proofs.Expression.Shape

/-! A written expression is read as what it is, whatever stands behind it that does not belong to it.
Operands that are read in loops, from the left, hand over to the round that reads what follows them;
everything else that an expression holds has fewer tokens. -/
namespace CallGuard.Parse

/- Reading leaves the node of an expression. -/
abbrev Shows (p : Parse Slot) (s : ParseState) (e : Expr) (rest : List Lex) : Prop :=
  Delivers p s rest fun t a => e.ShownIn t a

/- An expression with fewer than `n` tokens, and what is left for reading it. -/
structure Fits (e : Expr) (n fuel depth : Nat) : Prop where
  tight : e.Tight
  short : e.marks.length < n
  fuel : 2 * e.marks.length ≤ fuel
  room : depth + e.nesting ≤ maxNesting + 1

namespace Fits
variable {e d : Expr} {n fuel depth : Nat}

/- A part that is read where the whole is. -/
theorem part (fits : Fits e n fuel depth) (tight : d.Tight)
    (short : d.marks.length ≤ e.marks.length) (flat : d.nesting ≤ e.nesting) : Fits d n fuel depth := by
  obtain ⟨-, less, enough, room⟩ := fits
  exact ⟨tight, by omega, by omega, by omega⟩

/- A part that is read further in. -/
theorem inner {j k : Nat} (fits : Fits e (n + 1) (fuel + k) depth) (few : k ≤ 2) (tight : d.Tight)
    (shorter : d.marks.length < e.marks.length) (deeper : d.nesting + j ≤ e.nesting) :
    Fits d n fuel (depth + j) := by
  obtain ⟨-, less, enough, room⟩ := fits
  exact ⟨tight, by omega, by omega, by omega⟩

theorem more (fits : Fits e n fuel depth) : ∃ more, fuel = more + 1 := by
  have some := e.marksPos
  have enough := fits.fuel
  exact ⟨fuel - 1, by omega⟩

theorem further (fits : Fits e n (fuel + 1) depth) : ∃ more, fuel = more + 1 := by
  have some := e.marksPos
  have enough := fits.fuel
  exact ⟨fuel - 1, by omega⟩

end Fits

structure Readable (n : Nat) : Prop where
  assignment : ∀ {e : Expr} {fuel : Nat} {s : ParseState} {l : Lex} {after : List Lex},
    Fits e n fuel (s.depth + 1) → Ready s (e.lexed (l :: after)) → closes l.kind = true →
    Shows (production (fuel + 1) .assignment) s e (l :: after)
  binary : ∀ {e : Expr} {fuel above : Nat} {s : ParseState} {l : Lex} {after : List Lex},
    Fits e n fuel s.depth → Ready s (e.lexed (l :: after)) → above < e.level →
    precedence l.kind false ≤ above → appends l.kind = false →
    Shows (production (fuel + 1) (.binary above)) s e (l :: after)
  unary : ∀ {e : Expr} {fuel : Nat} {s : ParseState} {l : Lex} {after : List Lex},
    Fits e n (fuel + 1) s.depth → Ready s (e.lexed (l :: after)) → 10 ≤ e.level →
    appends l.kind = false → Shows (production (fuel + 1) .unary) s e (l :: after)

/- A loop goes on well once the expression is read that it begins with. -/
def Continues (step : Nat → Slot → Parse (ForInStep Slot)) (s : ParseState) (e : Expr)
    (ahead rest : List Lex) (Q : Tree → Slot → Prop) : Prop :=
  ∀ start (rounds : List Token) a s', Ready s' ahead → Calm s s' → e.ShownIn s'.tree a →
    ahead.length ≤ rounds.length + 1 → Delivers (repeatOver (step start) rounds a) s' rest Q

namespace Continues
variable {step : Nat → Slot → Parse (ForInStep Slot)} {s s' : ParseState} {e : Expr}
  {ahead rest : List Lex} {Q : Tree → Slot → Prop}

theorem afterRound {l : Lex} (next : Continues step s e (l :: ahead) rest Q) (calm : Calm s s')
    {start : Nat} {rounds : List Token} {a : Slot} (long : ahead.length < rounds.length)
    (round : Delivers (step start a) s' (l :: ahead) fun t r => ∃ b, r = .yield b ∧ e.ShownIn t b) :
    Delivers (repeatOver (step start) rounds a) s' rest Q := by
  cases rounds with
  | nil => simp at long
  | cons t rounds =>
    rw [List.length_cons] at long
    exact .goesOn round fun b s₂ ready calm' shown =>
      next start rounds b s₂ ready (calm.trans calm') shown (by rw [List.length_cons]; omega)

theorem ends (last : ∀ start a s', Ready s' ahead → e.ShownIn s'.tree a →
    Delivers (step start a) s' ahead fun t r => ∃ b, r = .done b ∧ e.ShownIn t b) :
    Continues step s e ahead ahead fun t a => e.ShownIn t a :=
  fun start rounds a s' ready _ shown _ => .stops rounds (last start a s' ready shown)

end Continues

section
variable {sub : SubParse} {s : ParseState} {l m : Lex} {ls after : List Lex}

/-! ### Single tokens -/

theorem wordReads (ready : Ready s (l :: ls)) (more : ls ≠ []) (named : l.kind.isNameLike = true) :
    Delivers anyName s ls fun t a => t.Carries a (.token .identifier) (some (.identifier l.value)) := by
  refine .token ready fun t same => ?_
  subst same
  rw [if_pos (show t.kind.isNameLike = true from named)]
  exact .advance ready more fun s' ready _ => .addNode ready

theorem bareReads (ready : Ready s (l :: ls)) (more : ls ≠ []) :
    Delivers bareToken s ls fun t a => t.Carries a (.token l.kind) none := by
  refine .token ready fun t same => ?_
  subst same
  exact .advance ready more fun s' ready _ => .addNode ready

theorem literalReads (ready : Ready s (l :: ls)) (more : ls ≠ []) :
    Delivers literal s ls fun t a => t.Carries a (.token l.kind) (some (.literal l.value)) := by
  refine .token ready fun t same => ?_
  subst same
  exact .advance ready more fun s' ready _ => .addNode ready

theorem nameReads (n : Name) (ready : Ready s ((Expr.name n).lexed (m :: after)))
    (plain : m.kind ≠ .word .functionWord) : Shows (primary sub) s (.name n) (m :: after) := by
  have word : (Mark.word n.toWord).lex.kind = .identifier := n.kind
  refine .kind ready word (.noAsync ready plain (.isThere ready word ?_))
  exact wordReads ready nofun (by rw [word]; rfl)

theorem constantReads (c : Constant) (ready : Ready s ((Expr.constant c).lexed (m :: after))) :
    Shows (primary sub) s (.constant c) (m :: after) := by
  have same : (Mark.word (.reserved c.word)).lex.kind = .word c.word := Word.kindReserved c.word
  have bare := bareReads ready (List.cons_ne_nil _ _)
  rw [same] at bare
  refine .kind ready same ?_
  obtain ⟨word, plain⟩ := c
  cases word <;> first | exact bare | cases plain

theorem numberReads (n : Numeral) (ready : Ready s ((Expr.number n).lexed (m :: after))) :
    Shows (primary sub) s (.number n) (m :: after) :=
  .kind ready rfl (literalReads ready (List.cons_ne_nil _ _))

/-! ### What is appended -/

theorem propertyReads {o : Expr} (w : Word) (optional : Bool) (start : Nat) {a : Slot}
    (ready : Ready s ((Mark.word w).lex :: m :: after)) (shown : o.ShownIn s.tree a) :
    Shows (propertyRest start a optional) s (.access o optional w) (m :: after) := by
  have named : (Mark.word w).lex.kind.isNameLike = true := by
    show w.kind.isNameLike = true
    rcases w.kindForm with same | ⟨k, same⟩ <;> rw [same] <;> rfl
  refine .bind (wordReads ready nofun named) fun d s₁ ready₁ calm₁ name => ?_
  refine .prevStop fun stop => .weaken (.addNode ready₁) fun t b grows node => ?_
  exact ⟨a, d, node, o.shownGrows (calm₁.grows.trans grows) shown, Tree.carriesGrows grows name⟩

/- One more round that answers with the node of an expression. -/
abbrev Round (p : Parse (ForInStep Slot)) (s : ParseState) (e : Expr) (rest : List Lex) : Prop :=
  Delivers p s rest fun t r => ∃ b, r = .yield b ∧ e.ShownIn t b

theorem roundReads {p : Parse Slot} {e : Expr} {rest : List Lex} (reads : Shows p s e rest) :
    Round (p >>= fun b => pure (.yield b)) s e rest :=
  .bind reads fun b _ ready _ shown => .pure ready ⟨b, rfl, shown⟩

theorem accessRound {o : Expr} (w : Word) (optional : Bool) {start : Nat} {a : Slot}
    (ready : Ready s ((Expr.dot optional).lex :: (Mark.word w).lex :: m :: after))
    (shown : o.ShownIn s.tree a) :
    Round (chainStep sub start a) s (.access o optional w) (m :: after) := by
  cases optional with
  | false =>
    refine .kind ready rfl (.advance ready nofun fun s₁ ready₁ calm₁ => ?_)
    exact roundReads (propertyReads w false start ready₁ (o.shownGrows calm₁.grows shown))
  | true =>
    refine .kind ready rfl (.advance ready nofun fun s₁ ready₁ calm₁ => ?_)
    have property := propertyReads w true start ready₁ (o.shownGrows calm₁.grows shown)
    rcases w.kindForm with same | ⟨k, same⟩ <;> exact roundReads (.kind ready₁ same property)

theorem nonNullRound {e : Expr} {start : Nat} {a : Slot}
    (ready : Ready s ((Mark.punct .bang).lex :: m :: after)) (shown : e.ShownIn s.tree a) :
    Round (chainStep sub start a) s e.nonNull (m :: after) := by
  refine .kind ready rfl (.afterLineBreak ready (.advance ready nofun fun s₁ ready₁ calm₁ => ?_))
  refine roundReads (.weaken (.finish ready₁) fun t b grows node => ?_)
  exact ⟨a, node, e.shownGrows (calm₁.grows.trans grows) shown⟩

theorem chainStops {e : Expr} {start : Nat} {a : Slot} (ready : Ready s (l :: after))
    (plain : appends l.kind = false) (shown : e.ShownIn s.tree a) :
    Delivers (chainStep sub start a) s (l :: after) fun t r => ∃ b, r = .done b ∧ e.ShownIn t b := by
  refine .kind ready rfl ?_
  split
  all_goals first
    | exact .pure ready ⟨a, rfl, shown⟩
    | (rename_i same; rw [same] at plain; cases plain)

theorem expressionReads {e : Expr} (first : Shows (sub .assignment) s e (l :: after))
    (plain : l.kind ≠ .punct .comma) : Shows (expression sub) s e (l :: after) := by
  refine .here fun start => .bind first fun a s₁ ready₁ _ shown => .loop ready₁ fun rounds _ => ?_
  exact .stops rounds (.refuse ready₁ plain (.pure ready₁ ⟨a, rfl, shown⟩))

theorem headReads {e : Expr} {rest : List Lex} {Q : Tree → Slot → Prop}
    (ready : Ready s (l :: ls)) (plain : l.kind ≠ .word .newWord)
    (head : Shows (primary sub) s e (m :: after))
    (next : Continues (chainStep sub) s e (m :: after) rest Q) :
    Delivers (leftHandSide sub) s rest Q := by
  refine .here fun start => .notAt ready plain (.bind head fun a s₁ ready₁ calm₁ shown => ?_)
  exact .loop ready₁ fun rounds long => next start rounds a s₁ ready₁ calm₁ shown (by omega)

end

/-! ### Rows of arguments -/

section
variable {n fuel : Nat} (small : Readable n)
include small

theorem argumentReads {e : Expr} {s : ParseState} {l : Lex} {after rest : List Lex}
    {args : List Slot} {Q : Tree → ForInStep (List Slot) → Prop} (fits : Fits e n fuel (s.depth + 1))
    (ready : Ready s (e.lexed (l :: after))) (ends : closes l.kind = true)
    (next : ∀ a s', Ready s' (l :: after) → Calm s s' → e.ShownIn s'.tree a → Delivers (do
      if ← accept (.punct .comma) then return .yield (a :: args)
      else return .done (a :: args)) s' rest Q) :
    Delivers (argumentStep (production (fuel + 1)) args) s rest Q := by
  obtain ⟨m, more, same, opens, -⟩ := e.begins.first
  obtain ⟨noEnd, -, noParen, -, noSpread⟩ := opensExpressionPlain opens
  have here : Ready s (m.lex :: (more.map Mark.lex ++ l :: after)) := by
    simpa [Expr.lexed, same] using ready
  refine .kind here (show m.lex.kind = m.kind from rfl) ?_
  simp only [beq_eq_false_iff_ne.mpr noEnd, beq_eq_false_iff_ne.mpr noParen,
    beq_eq_false_iff_ne.mpr noSpread, Bool.or_self, Bool.false_eq_true, if_false]
  exact .bind (small.assignment fits ready ends) next

theorem argumentsRead : (es : List Expr) → {s : ParseState} → {ahead : List Lex} →
    {rounds : List Token} → {args : List Slot} → Expr.AllTight es → (Expr.argMarks es).length < n →
    2 * (Expr.argMarks es).length ≤ fuel → s.depth + Expr.nestingAll es ≤ maxNesting →
    Ready s (Expr.argsLexed es ((Mark.punct .closeParen).lex :: ahead)) → es.length ≤ rounds.length →
    Delivers (repeatOver (argumentStep (production (fuel + 1))) rounds args) s
      ((Mark.punct .closeParen).lex :: ahead)
      fun t r => ∃ ss, r = ss.reverse ++ args ∧ Expr.AllShownIn t es ss
  | [], _, _, rounds, args, _, _, _, _, ready, _ =>
    .stops rounds (.kind ready rfl (.pure ready ⟨args, rfl, [], rfl, trivial⟩))
  | [e], s, _, rounds, args, tight, short, enough, room, ready, _ => by
    simp only [Expr.argMarks, Expr.nestingAll] at short enough room
    have fits : Fits e n fuel (s.depth + 1) := ⟨tight.1, short, enough, by omega⟩
    refine .stops rounds (argumentReads small fits ready rfl fun a s₁ ready₁ _ shown => ?_)
    exact .refuse ready₁ (by decide) (.pure ready₁ ⟨_, rfl, [a], rfl, shown, trivial⟩)
  | e :: f :: es, _, _, [], _, _, _, _, _, _, long => by simp at long
  | e :: f :: es, s, ahead, _ :: rounds, args, tight, short, enough, room, ready, long => by
    simp only [Expr.argMarks, Expr.nestingAll, List.length_append, List.length_cons] at short enough room long
    have fits : Fits e n fuel (s.depth + 1) := ⟨tight.1, by omega, by omega, by omega⟩
    rw [Expr.argsLexedMore] at ready
    refine .goesOn (S := fun t b => ∃ a, b = a :: args ∧ e.ShownIn t a)
      (argumentReads small fits ready rfl fun a s₁ ready₁ _ shown =>
        .accept ready₁ (Expr.argsLexedSome _ _ _) rfl fun s₂ ready₂ calm₂ =>
          .pure ready₂ ⟨_, rfl, a, rfl, e.shownGrows calm₂.grows shown⟩) ?_
    rintro _ s₁ ready₁ calm₁ ⟨a, rfl, shown⟩
    have deep : s₁.depth + Expr.nestingAll (f :: es) ≤ maxNesting := by
      rw [calm₁.depth, Expr.nestingAll]
      omega
    refine .weaken (argumentsRead (f :: es) tight.2 (by omega) (by omega) deep ready₁ (by simp; omega))
      fun t r grows all => ?_
    obtain ⟨ss, rfl, all⟩ := all
    exact ⟨a :: ss, by simp, e.shownGrows grows shown, all⟩

theorem argumentListReads {args : List Expr} {s : ParseState} {m : Lex} {after : List Lex}
    (tight : Expr.AllTight args) (short : (Expr.argMarks args).length < n)
    (enough : 2 * (Expr.argMarks args).length ≤ fuel)
    (room : s.depth + Expr.nestingAll args ≤ maxNesting)
    (ready : Ready s ((Mark.punct .openParen).lex ::
      Expr.argsLexed args ((Mark.punct .closeParen).lex :: m :: after))) :
    Delivers (arguments (production (fuel + 1))) s (m :: after)
      fun t row => Expr.AllShownIn t args row.items := by
  refine .here fun start => .expect ready (Expr.argsLexedSome _ _ _) rfl fun s₁ ready₁ calm₁ => ?_
  have row : Delivers (loop (argumentStep (production (fuel + 1))) []) s₁
      ((Mark.punct .closeParen).lex :: m :: after) fun t r => Expr.AllShownIn t args r.reverse := by
    refine .loop ready₁ fun rounds long => ?_
    have some := Expr.argsLength args
    simp only [Expr.argsLexed, List.length_append, List.length_map, List.length_cons] at long
    refine .weaken (argumentsRead small args tight short enough (calm₁.depth ▸ room) ready₁ (by omega))
      fun t r _ all => ?_
    obtain ⟨ss, rfl, all⟩ := all
    simpa using all
  refine .bind (.within ready₁ row) fun r s₂ ready₂ _ all => ?_
  refine .expect ready₂ (List.cons_ne_nil _ _) rfl fun s₃ ready₃ calm₃ => .prevStop fun stop => .pure ready₃ ?_
  exact Expr.allShownGrows calm₃.grows args all

theorem callRound {f : Expr} {args : List Expr} {s : ParseState} {m : Lex} {after : List Lex}
    {start : Nat} {a : Slot} (tight : Expr.AllTight args) (short : (Expr.argMarks args).length < n)
    (enough : 2 * (Expr.argMarks args).length ≤ fuel)
    (room : s.depth + Expr.nestingAll args ≤ maxNesting)
    (ready : Ready s ((Mark.punct .openParen).lex ::
      Expr.argsLexed args ((Mark.punct .closeParen).lex :: m :: after))) (shown : f.ShownIn s.tree a) :
    Round (chainStep (production (fuel + 1)) start a) s (.call f args) (m :: after) := by
  refine .kind ready rfl (roundReads ?_)
  refine .notAt ready nofun (.bind (.pure (Q := fun _ b => b = none) ready rfl) ?_)
  rintro _ s₁ ready₁ calm₁ rfl
  refine .bind (argumentListReads small tight short enough (calm₁.depth ▸ room) ready₁)
    fun row s₂ ready₂ calm₂ all => .weaken (.finish ready₂) fun t b grows node => ?_
  exact ⟨a, row, node, f.shownGrows (calm₁.grows.trans (calm₂.grows.trans grows)) shown,
    Expr.allShownGrows grows args all⟩

theorem parenReads {e : Expr} {s : ParseState} {m : Lex} {after : List Lex}
    (fits : Fits e n fuel (s.depth + 1)) (ready : Ready s (e.paren.lexed (m :: after))) :
    Shows (primary (production (fuel + 1))) s e.paren (m :: after) := by
  rw [Expr.lexedParen] at ready
  refine .kind ready rfl (.here fun start => .expect ready (Expr.lexedSome _ _ _) rfl ?_)
  intro s₁ ready₁ calm₁
  rw [← calm₁.depth] at fits
  refine .bind (.within ready₁ (expressionReads (small.assignment fits ready₁ rfl) nofun))
    fun a s₂ ready₂ _ shown => .expect ready₂ nofun rfl fun s₃ ready₃ calm₃ => ?_
  refine .weaken (.finish ready₃) fun t b grows node => ?_
  exact ⟨a, node, e.shownGrows (calm₃.grows.trans grows) shown⟩

/-! ### Operands -/

/- An operand that more may be appended to, read with a loop behind it. -/
def Chained (n : Nat) (e : Expr) : Prop :=
  ∀ {fuel : Nat} {s : ParseState} {l : Lex} {after rest : List Lex} {Q : Tree → Slot → Prop},
    Fits e (n + 1) (fuel + 1) s.depth → 11 ≤ e.level → Ready s (e.lexed (l :: after)) →
    l.kind ≠ .word .functionWord → Continues (chainStep (production fuel)) s e (l :: after) rest Q →
    Delivers (leftHandSide (production fuel)) s rest Q

theorem chainReads : (e : Expr) → Chained n e
  | .name n => fun fits high ready plain next => by
    have word : (Mark.word n.toWord).lex.kind = .identifier := n.kind
    exact headReads ready (by rw [word]; decide) (nameReads n ready plain) next
  | .constant c => fun fits high ready plain next => by
    have same : (Mark.word (.reserved c.word)).lex.kind = .word c.word := Word.kindReserved c.word
    refine headReads ready ?_ (constantReads c ready) next
    rw [same]
    intro new
    have constant := c.plain
    rw [TokenKind.word.inj new] at constant
    cases constant
  | .number n => fun _ _ ready _ next => headReads ready (by rintro ⟨⟩) (numberReads n ready) next
  | .paren e => fun fits high ready plain next => by
    obtain ⟨fuel, rfl⟩ := fits.further
    have inside := fits.inner (d := e) (j := 1) (k := 2) (by omega) fits.tight (by simp [Expr.marks])
      (by simp [Expr.nesting])
    exact headReads ready (by rintro ⟨⟩) (parenReads small inside ready) next
  | .access o optional w => fun fits high ready plain next => by
    rw [Expr.lexedAccess] at ready
    have object := fits.part (d := o) fits.tight.2 (by simp [Expr.marks]) (by simp [Expr.nesting])
    refine chainReads o object fits.tight.1 ready (by cases optional <;> rintro ⟨⟩) ?_
    intro start rounds a s₁ ready₁ calm₁ shown long
    simp only [List.length_cons] at long
    exact next.afterRound calm₁ (by omega) (accessRound w optional ready₁ shown)
  | .call f args => fun fits high ready plain next => by
    obtain ⟨fuel, rfl⟩ := fits.further
    have callee := fits.part (d := f) fits.tight.1.2 (by simp [Expr.marks]) (by simp [Expr.nesting])
    obtain ⟨tight, short, enough, room⟩ := fits
    simp only [Expr.marks, Expr.nesting, List.length_append, List.length_cons] at short enough room
    rw [Expr.lexedCall] at ready
    refine chainReads f callee tight.1.1 ready (by rintro ⟨⟩) ?_
    intro start rounds a s₁ ready₁ calm₁ shown long
    simp only [List.length_cons, Expr.argsLexed, List.length_append] at long
    refine next.afterRound calm₁ (by omega) ?_
    exact callRound small tight.2 (by omega) (by omega) (by rw [calm₁.depth]; omega) ready₁ shown
  | .nonNull e => fun fits _ ready plain next => by
    rw [Expr.lexedNonNull] at ready
    have operand := fits.part (d := e) fits.tight.2 (by simp [Expr.marks]) (by simp [Expr.nesting])
    refine chainReads e operand fits.tight.1 ready (by rintro ⟨⟩) ?_
    intro start rounds a s₁ ready₁ calm₁ shown long
    simp only [List.length_cons] at long
    exact next.afterRound calm₁ (by omega) (nonNullRound ready₁ shown)
  | .binary op l r => fun fits high ready plain next => by
    have bound := op.levelBound
    simp only [Expr.level] at high
    omega
  | .prefixed .. | .awaited .. | .conditional .. | .assignName .. | .assignProperty .. =>
    fun _ high => by simp [Expr.level] at high

theorem operandReads {e : Expr} {s : ParseState} {l : Lex} {after : List Lex}
    (fits : Fits e (n + 1) (fuel + 1) s.depth) (high : 11 ≤ e.level)
    (ready : Ready s (e.lexed (l :: after))) (plain : appends l.kind = false) :
    Shows (postfixExpression (production fuel)) s e (l :: after) := by
  refine .here fun start => ?_
  have operand : Shows (leftHandSide (production fuel)) s e (l :: after) :=
    chainReads small e fits high ready (Expr.plainPlain plain)
      (.ends fun start a s' ready shown => chainStops ready plain shown)
  refine .bind operand fun a s₁ ready₁ _ shown => .kind ready₁ rfl ?_
  have up : (l.kind == .punct .plusPlus) = false := beq_eq_false_iff_ne.mpr fun same => by
    rw [same] at plain
    cases plain
  have down : (l.kind == .punct .minusMinus) = false := beq_eq_false_iff_ne.mpr fun same => by
    rw [same] at plain
    cases plain
  rw [up, down]
  exact .afterLineBreak ready₁ (.pure ready₁ shown)

theorem behindReads {e : Expr} {s : ParseState} {l : Lex} {after rest : List Lex}
    {Q : Tree → Slot → Prop} {f : Slot → Parse Slot} {otherwise : Parse Slot}
    (fits : Fits e n (fuel + 1) (s.depth + 1)) (high : 10 ≤ e.level)
    (ready : Ready s (e.lexed (l :: after))) (plain : appends l.kind = false)
    (next : ∀ a s', Ready s' (l :: after) → Calm s s' → e.ShownIn s'.tree a →
      Delivers (f a) s' rest Q) :
    Delivers (do
      if ← enter then
        let a ← production (fuel + 1) .unary
        leave
        f a
      else otherwise) s rest Q := by
  have some := e.nestingPos
  have room := fits.room
  refine .nest (P := fun t a => e.ShownIn t a) ready (by omega) (fun s₁ ready₁ deeper => ?_) next
  rw [← deeper] at fits
  exact small.unary fits ready₁ high plain

theorem unaryReads {e : Expr} {s : ParseState} {l : Lex} {after : List Lex}
    (fits : Fits e (n + 1) (fuel + 1) s.depth) (ready : Ready s (e.lexed (l :: after)))
    (high : 10 ≤ e.level) (plain : appends l.kind = false) :
    Shows (unaryExpression (production fuel)) s e (l :: after) := by
  refine .here fun start => ?_
  by_cases higher : 11 ≤ e.level
  · obtain ⟨m, more, same, opens, -⟩ := (e.beginsPrimary fits.tight higher).first
    obtain ⟨noPrefix, noAwait⟩ := opensPrimaryPlain opens
    have here : Ready s (m.lex :: (more.map Mark.lex ++ l :: after)) := by
      simpa [Expr.lexed, same] using ready
    refine .kind here (show m.lex.kind = m.kind from rfl) ?_
    rw [noPrefix, beq_eq_false_iff_ne.mpr noAwait]
    exact operandReads small fits higher ready plain
  · obtain ⟨fuel, rfl⟩ := fits.further
    cases e with
    | prefixed op e =>
      have operand := fits.inner (d := e) (j := 1) (k := 1) (by omega) fits.tight.2
        (by simp [Expr.marks]) (by simp [Expr.nesting])
      refine .kind ready (show _ = op.mark.kind from rfl) ?_
      rw [op.stands]
      refine .advance ready (Expr.lexedSome _ _ _) fun s₁ ready₁ calm₁ => ?_
      rw [← calm₁.depth] at operand
      refine behindReads small operand fits.tight.1 ready₁ plain fun a s₂ ready₂ calm₂ shown => ?_
      exact .weaken (.finish ready₂) fun t b grows node => ⟨a, node, e.shownGrows grows shown⟩
    | awaited e =>
      have operand := fits.inner (d := e) (j := 1) (k := 1) (by omega) fits.tight.2
        (by simp [Expr.marks]) (by simp [Expr.nesting])
      refine .kind ready (show _ = TokenKind.word .awaitWord from Word.kindReserved .awaitWord) ?_
      refine .advance ready (Expr.lexedSome _ _ _) fun s₁ ready₁ calm₁ => ?_
      rw [← calm₁.depth] at operand
      refine behindReads small operand fits.tight.1 ready₁ plain fun a s₂ ready₂ calm₂ shown => ?_
      exact .weaken (.finish ready₂) fun t b grows node => ⟨a, node, e.shownGrows grows shown⟩
    | binary op =>
      have bound := op.levelBound
      simp only [Expr.level] at high
      omega
    | _ => simp [Expr.level] at high higher

/-! ### Binary operators -/

/- An operand of binary operators, and those that it holds itself, read with a loop behind them. -/
def Climbed (n : Nat) (e : Expr) : Prop :=
  ∀ {fuel above : Nat} {s : ParseState} {l : Lex} {after rest : List Lex} {Q : Tree → Slot → Prop},
    Fits e (n + 1) (fuel + 1) s.depth → Ready s (e.lexed (l :: after)) → above < e.level →
    precedence l.kind false ≤ e.level → appends l.kind = false →
    Continues (binaryStep (production (fuel + 1)) above) s e (l :: after) rest Q →
    Delivers (binaryExpression (production (fuel + 1)) above) s rest Q

theorem binaryRound {e d : Expr} {op : BinaryOp} {above start : Nat} {a : Slot} {s : ParseState}
    {l : Lex} {after : List Lex} (fits : Fits d n fuel s.depth)
    (ready : Ready s (op.mark.lex :: d.lexed (l :: after))) (tighter : above < op.level)
    (right : op.level < d.level) (looser : precedence l.kind false ≤ op.level)
    (plain : appends l.kind = false) (shown : e.ShownIn s.tree a) :
    Round (binaryStep (production (fuel + 1)) above start a) s (.binary op e d) (l :: after) := by
  refine .kind ready (show _ = op.mark.kind from rfl) (.get ?_)
  rw [ready.free, if_neg (show ¬ precedence op.mark.kind false ≤ above from Nat.not_le.mpr tighter)]
  refine .advance ready (Expr.lexedSome _ _ _) fun s₁ ready₁ calm₁ => ?_
  rw [← calm₁.depth] at fits
  refine .bind (small.binary fits ready₁ right looser plain) fun b s₂ ready₂ calm₂ held => ?_
  refine roundReads (.weaken (.finish ready₂) fun t r grows node => ?_)
  exact ⟨a, b, node, e.shownGrows (calm₁.grows.trans (calm₂.grows.trans grows)) shown,
    d.shownGrows grows held⟩

omit small in
theorem binaryStops {e : Expr} {sub : SubParse} {above start : Nat} {a : Slot} {s : ParseState}
    {l : Lex} {after : List Lex} (ready : Ready s (l :: after))
    (looser : precedence l.kind false ≤ above) (shown : e.ShownIn s.tree a) :
    Delivers (binaryStep sub above start a) s (l :: after)
      fun t r => ∃ b, r = .done b ∧ e.ShownIn t b := by
  refine .kind ready rfl (.get ?_)
  rw [ready.free, if_pos looser]
  exact .pure ready ⟨a, rfl, shown⟩

theorem unaryClimbs {e : Expr} (high : 10 ≤ e.level) : Climbed n e := by
  intro fuel above s l after rest Q fits ready _ _ plain next
  refine .here fun start => .bind (unaryReads small fits ready high plain) ?_
  intro a s₁ ready₁ calm₁ shown
  exact .loop ready₁ fun rounds long => next start rounds a s₁ ready₁ calm₁ shown (by omega)

theorem climbReads : (e : Expr) → Climbed n e
  | .binary op l r => fun fits ready tighter looser plain next => by
    obtain ⟨⟨left, tightLeft⟩, right, tightRight⟩ := fits.tight
    have first := fits.part (d := l) tightLeft (by simp [Expr.marks]) (by simp [Expr.nesting])
    have second := fits.inner (d := r) (j := 0) (k := 1) (by omega) tightRight
      (by simp [Expr.marks]; omega) (by simp [Expr.nesting])
    rw [Expr.lexedBinary] at ready
    refine climbReads l first ready (Nat.lt_of_lt_of_le tighter left) left op.apart ?_
    intro start rounds a s₁ ready₁ calm₁ shown long
    simp only [List.length_cons, Expr.lexedLength] at long
    rw [Nat.add_zero, ← calm₁.depth] at second
    exact next.afterRound calm₁ (by omega)
      (binaryRound small second ready₁ tighter right looser plain shown)
  | .conditional .. | .assignName .. | .assignProperty .. =>
    fun _ _ tighter => absurd tighter (Nat.not_lt_zero _)
  | .name _ | .constant _ | .number _ | .prefixed .. | .awaited _ | .access .. | .call ..
  | .nonNull _ | .paren _ => unaryClimbs small (by simp [Expr.level])

theorem binaryReads {e : Expr} {above : Nat} {s : ParseState} {l : Lex} {after : List Lex}
    (fits : Fits e (n + 1) fuel s.depth) (ready : Ready s (e.lexed (l :: after)))
    (tighter : above < e.level) (looser : precedence l.kind false ≤ above)
    (plain : appends l.kind = false) :
    Shows (binaryExpression (production fuel) above) s e (l :: after) := by
  obtain ⟨fuel, rfl⟩ := fits.more
  exact climbReads small e fits ready tighter (by omega) plain
    (.ends fun start a s' ready shown => binaryStops ready looser shown)

/-! ### Assignments and conditions -/

theorem assignedReads {v : Expr} (op : AssignOp) {start : Nat} {a : Slot} {s : ParseState} {l : Lex}
    {after : List Lex} (fits : Fits v n fuel (s.depth + 1))
    (ready : Ready s (op.mark.lex :: v.lexed (l :: after))) (ends : closes l.kind = true) :
    Delivers (assignmentRest (production (fuel + 1)) start a) s (l :: after) fun t r => ∃ b,
      t.Carries r .binaryExpression (some (.binary ⟨a, .token op.mark.kind, b⟩)) ∧ v.ShownIn t b := by
  refine .kind ready (show _ = op.mark.kind from rfl) ?_
  rw [if_pos op.assigns]
  refine .advance ready (Expr.lexedSome _ _ _) fun s₁ ready₁ calm₁ => ?_
  rw [← calm₁.depth] at fits
  refine .bind (small.assignment fits ready₁ ends) fun b s₂ ready₂ calm₂ shown => ?_
  exact .weaken (.finish ready₂) fun t r grows node => ⟨b, node, v.shownGrows grows shown⟩

omit small in
theorem nothingReads {e : Expr} {sub : SubParse} {start : Nat} {a : Slot} {s : ParseState} {l : Lex}
    {after : List Lex} (ready : Ready s (l :: after)) (ends : closes l.kind = true)
    (shown : e.ShownIn s.tree a) : Shows (assignmentRest sub start a) s e (l :: after) := by
  obtain ⟨-, -, noAssignment, noQuestion⟩ := closesPlain ends
  refine .kind ready rfl ?_
  rw [noAssignment, beq_eq_false_iff_ne.mpr noQuestion]
  exact .pure ready shown

theorem branchesRead {x y : Expr} {start : Nat} {a : Slot} {s : ParseState} {l : Lex}
    {after : List Lex} (yes : Fits x n fuel (s.depth + 1)) (no : Fits y n fuel (s.depth + 1))
    (ready : Ready s ((Mark.punct .question).lex ::
      x.lexed ((Mark.punct .colon).lex :: y.lexed (l :: after)))) (ends : closes l.kind = true) :
    Delivers (assignmentRest (production (fuel + 1)) start a) s (l :: after) fun t r => ∃ b d,
      t.Carries r .conditionalExpression (some (.conditional ⟨a, b, d⟩)) ∧ x.ShownIn t b ∧
        y.ShownIn t d := by
  refine .kind ready rfl (.advance ready (Expr.lexedSome _ _ _) fun s₁ ready₁ calm₁ => ?_)
  rw [← calm₁.depth] at yes no
  refine .bind (.within ready₁ (small.assignment yes ready₁ rfl)) fun b s₂ ready₂ calm₂ first => ?_
  refine .expect ready₂ (Expr.lexedSome _ _ _) rfl fun s₃ ready₃ calm₃ => ?_
  rw [← calm₂.depth, ← calm₃.depth] at no
  refine .bind (small.assignment no ready₃ ends) fun d s₄ ready₄ calm₄ second => ?_
  refine .weaken (.finish ready₄) fun t r grows node => ⟨b, d, node, ?_, y.shownGrows grows second⟩
  exact x.shownGrows (calm₃.grows.trans (calm₄.grows.trans grows)) first

theorem wholeReads {e : Expr} {start : Nat} {s : ParseState} {l : Lex} {after : List Lex}
    (fits : Fits e (n + 1) fuel s.depth) (ready : Ready s (e.lexed (l :: after)))
    (ends : closes l.kind = true) :
    Shows (do
      let left ← binaryExpression (production fuel) 0
      assignmentRest (production fuel) start left) s e (l :: after) := by
  obtain ⟨plain, loose, -, -⟩ := closesPlain ends
  by_cases climbs : 0 < e.level
  · refine .bind (binaryReads small fits ready climbs (by omega) plain) ?_
    exact fun a s₁ ready₁ _ shown => nothingReads ready₁ ends shown
  · obtain ⟨fuel, rfl⟩ := fits.more
    cases e with
    | conditional c x y =>
      obtain ⟨⟨high, tightTest⟩, tightYes, tightNo⟩ := fits.tight
      have test := fits.part (d := c) tightTest (by simp [Expr.marks]) (by simp [Expr.nesting])
      have yes := fits.inner (d := x) (j := 1) (k := 1) (by omega) tightYes
        (by simp [Expr.marks]; omega) (by simp [Expr.nesting])
      have no := fits.inner (d := y) (j := 1) (k := 1) (by omega) tightNo
        (by simp [Expr.marks]; omega) (by simp [Expr.nesting])
      rw [Expr.lexedConditional] at ready
      refine .bind (binaryReads small test ready high (Nat.le_refl 0) rfl) ?_
      intro a s₁ ready₁ calm₁ shown
      rw [← calm₁.depth] at yes no
      refine .weaken (branchesRead small yes no ready₁ ends) fun t r grows held => ?_
      obtain ⟨b, d, node, first, second⟩ := held
      exact ⟨a, b, d, node, c.shownGrows grows shown, first, second⟩
    | assignName name op v =>
      have target := fits.part (d := .name name) trivial (by simp [Expr.marks])
        (by simp [Expr.nesting])
      have value := fits.inner (d := v) (j := 1) (k := 1) (by omega) fits.tight
        (by simp [Expr.marks]) (by simp [Expr.nesting])
      obtain ⟨apart, low⟩ := assignmentPlain op.assigns
      rw [Expr.lexedAssignName] at ready
      refine .bind (binaryReads small target ready (by simp [Expr.level]) (Nat.le_of_eq low) apart) ?_
      intro a s₁ ready₁ calm₁ shown
      rw [← calm₁.depth] at value
      refine .weaken (assignedReads small op value ready₁ ends) fun t r grows held => ?_
      obtain ⟨b, node, held⟩ := held
      exact ⟨a, b, node, Expr.shownGrows grows (.name name) shown, held⟩
    | assignProperty o optional w op v =>
      have target := fits.part (d := .access o optional w) fits.tight.1 (by simp [Expr.marks])
        (by simp [Expr.nesting])
      have value := fits.inner (d := v) (j := 1) (k := 1) (by omega) fits.tight.2
        (by simp [Expr.marks]; omega) (by simp [Expr.nesting])
      obtain ⟨apart, low⟩ := assignmentPlain op.assigns
      rw [Expr.lexedAssignProperty] at ready
      refine .bind (binaryReads small target ready (by simp [Expr.level]) (Nat.le_of_eq low) apart) ?_
      intro a s₁ ready₁ calm₁ shown
      rw [← calm₁.depth] at value
      refine .weaken (assignedReads small op value ready₁ ends) fun t r grows held => ?_
      obtain ⟨b, node, held⟩ := held
      exact ⟨a, b, node, Expr.shownGrows grows (.access o optional w) shown, held⟩
    | binary op l r => exact absurd op.levelPos climbs
    | _ => simp [Expr.level] at climbs

theorem assignmentReads {e : Expr} {s : ParseState} {l : Lex} {after : List Lex}
    (fits : Fits e (n + 1) fuel (s.depth + 1)) (ready : Ready s (e.lexed (l :: after)))
    (ends : closes l.kind = true) : Shows (assignment (production fuel)) s e (l :: after) := by
  have some := e.nestingPos
  have room := fits.room
  obtain ⟨m, more, same, opens, -⟩ := e.begins.first
  obtain ⟨-, noYield, -⟩ := opensExpressionPlain opens
  refine .nested ready (by omega) fun s₁ ready₁ deeper => ?_
  have here : Ready s₁ (m.lex :: (more.map Mark.lex ++ l :: after)) := by
    simpa [Expr.lexed, same] using ready₁
  refine .notAt here noYield (.noArrow ready₁ fun s₂ ready₂ calm₂ => .here fun start => ?_)
  rw [← deeper, ← calm₂.depth] at fits
  exact wholeReads small fits ready₂ ends

end

theorem readable : (n : Nat) → Readable n
  | 0 =>
    ⟨fun fits => absurd fits.short (Nat.not_lt_zero _), fun fits => absurd fits.short (Nat.not_lt_zero _),
      fun fits => absurd fits.short (Nat.not_lt_zero _)⟩
  | n + 1 => ⟨assignmentReads (readable n), binaryReads (readable n), unaryReads (readable n)⟩

end CallGuard.Parse
