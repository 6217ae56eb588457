import CallGuard.Proofs.Expression.Delivers

/-! What written expressions look like from outside: which tokens they begin with, which tokens may
stand behind them, and which nodes of a tree stand for them. -/
namespace CallGuard

/-! ### Kinds of tokens -/

/- What operands begin with that have no operator in front. -/
def opensPrimary : TokenKind → Bool
  | .identifier | .numericLiteral | .punct .openParen => true
  | .word k => isConstant k
  | _ => false

def opensExpression (k : TokenKind) : Bool :=
  opensPrimary k || Parse.isPrefixOperator k || k == .word .awaitWord

/- Tokens that make more of an operand before them. `async` in front of `function` is no operand. -/
def appends : TokenKind → Bool
  | .punct .dot | .punct .questionDot | .punct .openBracket | .punct .openParen | .punct .less
  | .punct .bang | .punct .plusPlus | .punct .minusMinus | .word .functionWord => true
  | _ => false

/- What stands behind a whole expression. -/
def closes : TokenKind → Bool
  | .punct .closeParen | .punct .comma | .punct .colon | .punct .semicolon => true
  | _ => false

theorem opensPrimaryPlain {k : TokenKind} (opens : opensPrimary k = true) :
    Parse.isPrefixOperator k = false ∧ k ≠ .word .awaitWord := by
  unfold opensPrimary at opens
  split at opens
  · decide
  · decide
  · decide
  · rename_i word
    cases word <;> first | contradiction | decide
  · contradiction

theorem opensExpressionPlain {k : TokenKind} (opens : opensExpression k = true) :
    k ≠ .endOfFile ∧ k ≠ .word .yieldWord ∧ k ≠ .punct .closeParen ∧ k ≠ .punct .closeBrace ∧
      k ≠ .punct .ellipsis := by
  refine ⟨?_, ?_, ?_, ?_, ?_⟩ <;>
  · rintro rfl
    contradiction

theorem precedencePlain {k : TokenKind} (binds : 0 < Parse.precedence k false)
    (plain : k ≠ .punct .less) : appends k = false := by
  cases k with
  | word word => cases word <;> first | rfl | cases binds
  | punct p => cases p <;> first | rfl | exact absurd rfl plain | cases binds
  | _ => rfl

theorem assignmentPlain {k : TokenKind} (assigns : k.isAssignment = true) :
    appends k = false ∧ Parse.precedence k false = 0 := by
  cases k with
  | punct p => cases p <;> first | contradiction | decide
  | _ => contradiction

theorem closesPlain {k : TokenKind} (ends : closes k = true) :
    appends k = false ∧ Parse.precedence k false = 0 ∧ k.isAssignment = false ∧
      k ≠ .punct .question := by
  unfold closes at ends
  split at ends
  all_goals first | contradiction | decide

theorem precedenceBound (k : TokenKind) (inForbidden : Bool) : Parse.precedence k inForbidden ≤ 9 := by
  unfold Parse.precedence
  split <;> first | omega | (split <;> omega)

namespace BinaryOp
variable (op : BinaryOp)

theorem levelBound : op.level ≤ 9 := precedenceBound _ _

theorem levelPos : 0 < op.level := op.binds

theorem apart : appends op.mark.kind = false := precedencePlain op.binds op.plain

end BinaryOp

/-! ### Rows of tokens -/

namespace Expr

/- The tokens of an expression and what comes behind them. -/
def lexed (e : Expr) (ahead : List Lex) : List Lex := e.marks.map Mark.lex ++ ahead

def argsLexed (es : List Expr) (ahead : List Lex) : List Lex :=
  (argMarks es).map Mark.lex ++ ahead

theorem lexedSome (e : Expr) (l : Lex) (ahead : List Lex) : e.lexed (l :: ahead) ≠ [] := by
  simp [lexed]

@[simp] theorem lexedLength (e : Expr) (ahead : List Lex) :
    (e.lexed ahead).length = e.marks.length + ahead.length := by
  simp [lexed]

theorem argsLexedSome (es : List Expr) (l : Lex) (ahead : List Lex) :
    argsLexed es (l :: ahead) ≠ [] := by
  simp [argsLexed]

section
variable (ahead : List Lex)

attribute [local simp] lexed argsLexed marks argMarks

@[simp] theorem lexedName (n : Name) :
    (name n).lexed ahead = (Mark.word n.toWord).lex :: ahead := rfl

@[simp] theorem lexedConstant (c : Constant) :
    (constant c).lexed ahead = (Mark.word (.reserved c.word)).lex :: ahead := rfl

@[simp] theorem lexedNumber (n : Numeral) :
    (number n).lexed ahead = (Mark.number n).lex :: ahead := rfl

@[simp] theorem lexedPrefixed (op : PrefixOp) (e : Expr) :
    (prefixed op e).lexed ahead = op.mark.lex :: e.lexed ahead := rfl

@[simp] theorem lexedAwaited (e : Expr) :
    e.awaited.lexed ahead = (Mark.word (.reserved .awaitWord)).lex :: e.lexed ahead := rfl

@[simp] theorem lexedBinary (op : BinaryOp) (l r : Expr) :
    (binary op l r).lexed ahead = l.lexed (op.mark.lex :: r.lexed ahead) := by
  simp

@[simp] theorem lexedConditional (c x y : Expr) : (conditional c x y).lexed ahead =
    c.lexed ((Mark.punct .question).lex :: x.lexed ((Mark.punct .colon).lex :: y.lexed ahead)) := by
  simp

@[simp] theorem lexedAssignName (n : Name) (op : AssignOp) (v : Expr) :
    (assignName n op v).lexed ahead = (name n).lexed (op.mark.lex :: v.lexed ahead) := rfl

@[simp] theorem lexedAccess (o : Expr) (optional : Bool) (w : Word) :
    (access o optional w).lexed ahead =
      o.lexed ((dot optional).lex :: (Mark.word w).lex :: ahead) := by
  simp

@[simp] theorem lexedAssignProperty (o : Expr) (optional : Bool) (w : Word) (op : AssignOp) (v : Expr) :
    (assignProperty o optional w op v).lexed ahead =
      (access o optional w).lexed (op.mark.lex :: v.lexed ahead) := by
  simp

@[simp] theorem lexedCall (f : Expr) (args : List Expr) : (call f args).lexed ahead =
    f.lexed ((Mark.punct .openParen).lex ::
      argsLexed args ((Mark.punct .closeParen).lex :: ahead)) := by
  simp

@[simp] theorem lexedNonNull (e : Expr) :
    e.nonNull.lexed ahead = e.lexed ((Mark.punct .bang).lex :: ahead) := by
  simp

@[simp] theorem lexedParen (e : Expr) : e.paren.lexed ahead =
    (Mark.punct .openParen).lex :: e.lexed ((Mark.punct .closeParen).lex :: ahead) := by
  simp

@[simp] theorem argsLexedNone : argsLexed [] ahead = ahead := rfl

@[simp] theorem argsLexedOne (e : Expr) : argsLexed [e] ahead = e.lexed ahead := rfl

@[simp] theorem argsLexedMore (e f : Expr) (es : List Expr) : argsLexed (e :: f :: es) ahead =
    e.lexed ((Mark.punct .comma).lex :: argsLexed (f :: es) ahead) := by
  simp

end

/- A row of tokens begins like an expression does. No asynchronous function begins there. -/
structure Begins (opens : TokenKind → Bool) (row : List Mark) : Prop where
  first : ∃ m more, row = m :: more ∧ opens m.kind = true ∧
    (m.kind = .identifier → ∀ next ∈ more.head?, next.kind ≠ .word .functionWord)

namespace Begins
variable {opens : TokenKind → Bool} {row : List Mark} {m : Mark}

theorem one {more : List Mark} (known : opens m.kind = true)
    (plain : m.kind ≠ .identifier ∨ more = []) : Begins opens (m :: more) := by
  refine ⟨m, more, rfl, known, fun word next member => ?_⟩
  rcases plain with other | rfl
  · exact absurd word other
  · cases member

theorem append (begins : Begins opens row) (plain : m.kind ≠ .word .functionWord) (more : List Mark) :
    Begins opens (row ++ m :: more) := by
  obtain ⟨first, behind, rfl, known, second⟩ := begins.first
  refine ⟨first, behind ++ m :: more, rfl, known, fun word next member => ?_⟩
  cases behind with
  | nil =>
    cases Option.some.inj member
    exact plain
  | cons => exact second word next member

theorem punct (begins : Begins opens row) (p : Punctuator) (more : List Mark) :
    Begins opens (row ++ .punct p :: more) := begins.append (m := .punct p) nofun more

end Begins

theorem plainPlain {k : TokenKind} (plain : appends k = false) : k ≠ .word .functionWord := by
  rintro rfl
  contradiction

theorem prefixKind (op : PrefixOp) : op.mark.kind ≠ .identifier := by
  intro word
  have stands := op.stands
  rw [word] at stands
  cases stands

theorem begins : (e : Expr) → Begins opensExpression e.marks
  | .name n => .one (by simp [Mark.kind, opensExpression, opensPrimary]) (.inr rfl)
  | .constant c => .one (by simp [Mark.kind, opensExpression, opensPrimary, c.plain]) (.inr rfl)
  | .number n => .one rfl (.inr rfl)
  | .prefixed op e => .one (by simp [opensExpression, op.stands]) (.inl (prefixKind op))
  | .awaited e => .one rfl (.inl nofun)
  | .binary op l r => l.begins.append (plainPlain op.apart) _
  | .conditional c x y => c.begins.punct _ _
  | .assignName n op v =>
    have alone : Begins opensExpression [.word n.toWord] :=
      .one (by simp [Mark.kind, opensExpression, opensPrimary]) (.inr rfl)
    alone.append (plainPlain (assignmentPlain op.assigns).1) _
  | .assignProperty o optional w op v => o.begins.punct _ _
  | .access o optional w => o.begins.punct _ _
  | .call f args => f.begins.punct _ _
  | .nonNull e => e.begins.punct _ _
  | .paren e => .one rfl (.inl nofun)

/-! ### Places for operands -/

mutual

/- No operand binds less tightly than its place demands. -/
def Tight : Expr → Prop
  | .name _ | .constant _ | .number _ => True
  | .prefixed _ e | .awaited e => 10 ≤ e.level ∧ e.Tight
  | .binary op l r => (op.level ≤ l.level ∧ l.Tight) ∧ op.level < r.level ∧ r.Tight
  | .conditional c x y => (0 < c.level ∧ c.Tight) ∧ x.Tight ∧ y.Tight
  | .assignName _ _ v => v.Tight
  | .assignProperty o _ _ _ v => (11 ≤ o.level ∧ o.Tight) ∧ v.Tight
  | .access o _ _ => 11 ≤ o.level ∧ o.Tight
  | .call f args => (11 ≤ f.level ∧ f.Tight) ∧ AllTight args
  | .nonNull e => 11 ≤ e.level ∧ e.Tight
  | .paren e => e.Tight

def AllTight : List Expr → Prop
  | [] => True
  | e :: es => e.Tight ∧ AllTight es

end

@[simp] theorem levelGroup (e : Expr) : e.group.level = e.level := by
  cases e <;> simp [group, level]

theorem fitTight {least : Nat} {e : Expr} (low : least ≤ 11) (tight : e.Tight) :
    least ≤ (fit least e).level ∧ (fit least e).Tight := by
  unfold fit
  split
  · exact ⟨low, tight⟩
  · exact ⟨Nat.not_lt.mp ‹_›, tight⟩

mutual

theorem groupTight : (e : Expr) → e.group.Tight
  | .name _ => trivial
  | .constant _ => trivial
  | .number _ => trivial
  | .prefixed _ e => fitTight (by omega) e.groupTight
  | .awaited e => fitTight (by omega) e.groupTight
  | .binary op l r =>
    have bound := op.levelBound
    ⟨fitTight (by omega) l.groupTight, fitTight (by omega) r.groupTight⟩
  | .conditional c x y => ⟨fitTight (by omega) c.groupTight, x.groupTight, y.groupTight⟩
  | .assignName _ _ v => v.groupTight
  | .assignProperty o _ _ _ v => ⟨fitTight (by omega) o.groupTight, v.groupTight⟩
  | .access o _ _ => fitTight (by omega) o.groupTight
  | .call f args => ⟨fitTight (by omega) f.groupTight, groupAllTight args⟩
  | .nonNull e => fitTight (by omega) e.groupTight
  | .paren e => e.groupTight

theorem groupAllTight : (es : List Expr) → AllTight (groupAll es)
  | [] => trivial
  | e :: es => ⟨e.groupTight, groupAllTight es⟩

end

theorem fitSame {least : Nat} {e : Expr} (high : least ≤ e.level) : fit least e = e :=
  if_neg (Nat.not_lt.mpr high)

mutual

/- Nothing is put into parentheses that does not need them. -/
theorem groupSame : (e : Expr) → e.Tight → e.group = e
  | .name _, _ => rfl
  | .constant _, _ => rfl
  | .number _, _ => rfl
  | .prefixed _ e, tight => by rw [group, groupSame e tight.2, fitSame tight.1]
  | .awaited e, tight => by rw [group, groupSame e tight.2, fitSame tight.1]
  | .binary _ l r, ⟨⟨left, tightLeft⟩, right, tightRight⟩ => by
    rw [group, groupSame l tightLeft, groupSame r tightRight, fitSame left, fitSame right]
  | .conditional c x y, ⟨⟨test, tight⟩, yes, no⟩ => by
    rw [group, groupSame c tight, groupSame x yes, groupSame y no, fitSame test]
  | .assignName _ _ v, tight => by rw [group, groupSame v tight]
  | .assignProperty o _ _ _ v, ⟨⟨object, tight⟩, value⟩ => by
    rw [group, groupSame o tight, groupSame v value, fitSame object]
  | .access o _ _, tight => by rw [group, groupSame o tight.2, fitSame tight.1]
  | .call f args, ⟨⟨callee, tight⟩, all⟩ => by
    rw [group, groupSame f tight, groupAllSame args all, fitSame callee]
  | .nonNull e, tight => by rw [group, groupSame e tight.2, fitSame tight.1]
  | .paren e, tight => by rw [group, groupSame e tight]

theorem groupAllSame : (es : List Expr) → AllTight es → groupAll es = es
  | [], _ => rfl
  | e :: es, tight => by rw [groupAll, groupSame e tight.1, groupAllSame es tight.2]

end

/- What may be appended to begins without an operator in front. -/
theorem beginsPrimary : (e : Expr) → e.Tight → 11 ≤ e.level → Begins opensPrimary e.marks
  | .name n, _, _ => .one (by simp [Mark.kind, opensPrimary]) (.inr rfl)
  | .constant c, _, _ => .one (by simp [Mark.kind, opensPrimary, c.plain]) (.inr rfl)
  | .number n, _, _ => .one rfl (.inr rfl)
  | .binary op l r, _, high => by
    have bound := op.levelBound
    simp only [level] at high
    omega
  | .access o optional w, tight, _ => (o.beginsPrimary tight.2 tight.1).punct _ _
  | .call f args, tight, _ => (f.beginsPrimary tight.1.2 tight.1.1).punct _ _
  | .nonNull e, tight, _ => (e.beginsPrimary tight.2 tight.1).punct _ _
  | .paren e, _, _ => .one rfl (.inl nofun)

theorem nestingPos : (e : Expr) → 0 < e.nesting
  | .name _ | .constant _ | .number _ => by simp [nesting]
  | .prefixed _ e | .awaited e | .paren e => by simp [nesting]
  | .binary _ l r => by simp [nesting, l.nestingPos]
  | .conditional c x y => by simp [nesting]
  | .assignName _ _ v => by simp [nesting]
  | .assignProperty o _ _ _ v => by simp [nesting]
  | .access o _ _ => by simpa [nesting] using o.nestingPos
  | .call f args => by simp [nesting]
  | .nonNull e => by simpa [nesting] using e.nestingPos

theorem marksPos (e : Expr) : 0 < e.marks.length := by
  obtain ⟨m, more, same, -⟩ := e.begins.first
  simp [same]

theorem argsLength : (es : List Expr) → es.length ≤ (argMarks es).length
  | [] => Nat.le_refl _
  | [e] => e.marksPos
  | e :: f :: es => by
    have first := e.marksPos
    have others := argsLength (f :: es)
    simp only [argMarks, List.length_append, List.length_cons] at others ⊢
    omega

/-! ### Arrows -/

theorem wordNoArrow (w : Word) : (Mark.word w).kind ≠ .punct .arrow := by
  rw [Mark.kind, Word.kind]
  split <;> simp

theorem opNoArrow {k : TokenKind} (known : 0 < Parse.precedence k false ∨ k.isAssignment = true ∨
    Parse.isPrefixOperator k = true) : k ≠ .punct .arrow := by
  rintro rfl
  revert known
  decide

mutual

theorem noArrow : (e : Expr) → ∀ m ∈ e.marks, m.kind ≠ .punct .arrow
  | .name n => by simpa [marks] using wordNoArrow n.toWord
  | .constant c => by simpa [marks] using wordNoArrow (.reserved c.word)
  | .number n => by simp [marks, Mark.kind]
  | .prefixed op e => List.forall_mem_cons.mpr ⟨opNoArrow (.inr (.inr op.stands)), e.noArrow⟩
  | .awaited e => List.forall_mem_cons.mpr ⟨wordNoArrow _, e.noArrow⟩
  | .binary op l r => List.forall_mem_append.mpr
      ⟨l.noArrow, List.forall_mem_cons.mpr ⟨opNoArrow (.inl op.binds), r.noArrow⟩⟩
  | .conditional c x y => List.forall_mem_append.mpr ⟨c.noArrow, List.forall_mem_cons.mpr ⟨nofun,
      List.forall_mem_append.mpr ⟨x.noArrow, List.forall_mem_cons.mpr ⟨nofun, y.noArrow⟩⟩⟩⟩
  | .assignName n op v => List.forall_mem_cons.mpr ⟨wordNoArrow _,
      List.forall_mem_cons.mpr ⟨opNoArrow (.inr (.inl op.assigns)), v.noArrow⟩⟩
  | .assignProperty o optional w op v => List.forall_mem_append.mpr ⟨o.noArrow,
      List.forall_mem_cons.mpr ⟨by cases optional <;> nofun, List.forall_mem_cons.mpr ⟨wordNoArrow _,
      List.forall_mem_cons.mpr ⟨opNoArrow (.inr (.inl op.assigns)), v.noArrow⟩⟩⟩⟩
  | .access o optional w => List.forall_mem_append.mpr ⟨o.noArrow,
      List.forall_mem_cons.mpr ⟨by cases optional <;> nofun, by simpa using wordNoArrow w⟩⟩
  | .call f args => List.forall_mem_append.mpr ⟨f.noArrow, List.forall_mem_cons.mpr ⟨nofun,
      List.forall_mem_append.mpr ⟨argsNoArrow args, by simp [Mark.kind]⟩⟩⟩
  | .nonNull e => List.forall_mem_append.mpr ⟨e.noArrow, by simp [Mark.kind]⟩
  | .paren e => List.forall_mem_cons.mpr ⟨nofun,
      List.forall_mem_append.mpr ⟨e.noArrow, by simp [Mark.kind]⟩⟩

theorem argsNoArrow : (es : List Expr) → ∀ m ∈ argMarks es, m.kind ≠ .punct .arrow
  | [] => nofun
  | [e] => e.noArrow
  | e :: f :: es => List.forall_mem_append.mpr
      ⟨e.noArrow, List.forall_mem_cons.mpr ⟨nofun, argsNoArrow (f :: es)⟩⟩

end

/-! ### Nodes -/

mutual

/- The node in a place stands for the expression, as the nodes below it stand for its parts. -/
def ShownIn (t : Tree) : Expr → Slot → Prop
  | .name n, s => t.Carries s (.token .identifier) (some (.identifier n.text))
  | .constant c, s => t.Carries s (.token (.word c.word)) none
  | .number n, s => t.Carries s (.token .numericLiteral) (some (.literal n.text))
  | .prefixed op e, s => ∃ a,
    t.Carries s .prefixUnary (some (.unary ⟨.token op.mark.kind, a⟩)) ∧ ShownIn t e a
  | .awaited e, s => ∃ a, t.Carries s .awaitExpression (some (.operand a)) ∧ ShownIn t e a
  | .binary op l r, s => ∃ a b,
    t.Carries s .binaryExpression (some (.binary ⟨a, .token op.mark.kind, b⟩)) ∧
      ShownIn t l a ∧ ShownIn t r b
  | .conditional c x y, s => ∃ a b d,
    t.Carries s .conditionalExpression (some (.conditional ⟨a, b, d⟩)) ∧
      ShownIn t c a ∧ ShownIn t x b ∧ ShownIn t y d
  | .assignName n op v, s => ∃ a b,
    t.Carries s .binaryExpression (some (.binary ⟨a, .token op.mark.kind, b⟩)) ∧
      t.Carries a (.token .identifier) (some (.identifier n.text)) ∧ ShownIn t v b
  | .assignProperty o optional w op v, s => ∃ a b,
    t.Carries s .binaryExpression (some (.binary ⟨a, .token op.mark.kind, b⟩)) ∧
      (∃ c d, t.Carries a .propertyAccess (some (.access ⟨c, d, optional⟩)) ∧ ShownIn t o c ∧
        t.Carries d (.token .identifier) (some (.identifier w.text))) ∧ ShownIn t v b
  | .access o optional w, s => ∃ c d,
    t.Carries s .propertyAccess (some (.access ⟨c, d, optional⟩)) ∧ ShownIn t o c ∧
      t.Carries d (.token .identifier) (some (.identifier w.text))
  | .call f args, s => ∃ a row,
    t.Carries s .callExpression (some (.call ⟨a, none, some row⟩)) ∧ ShownIn t f a ∧
      AllShownIn t args row.items
  | .nonNull e, s => ∃ a, t.Carries s .nonNull (some (.operand a)) ∧ ShownIn t e a
  | .paren e, s => ∃ a, t.Carries s .parenthesized (some (.parenthesized a)) ∧ ShownIn t e a

def AllShownIn (t : Tree) : List Expr → List Slot → Prop
  | [], [] => True
  | e :: es, s :: ss => ShownIn t e s ∧ AllShownIn t es ss
  | _, _ => False

end

mutual

theorem shownGrows {t t' : Tree} (grows : t.Grows t') :
    (e : Expr) → {s : Slot} → e.ShownIn t s → e.ShownIn t' s
  | .name _, _, shown => Tree.carriesGrows grows shown
  | .constant _, _, shown => Tree.carriesGrows grows shown
  | .number _, _, shown => Tree.carriesGrows grows shown
  | .prefixed _ e, _, ⟨a, node, inner⟩ => ⟨a, Tree.carriesGrows grows node, shownGrows grows e inner⟩
  | .awaited e, _, ⟨a, node, inner⟩ => ⟨a, Tree.carriesGrows grows node, shownGrows grows e inner⟩
  | .binary _ l r, _, ⟨a, b, node, left, right⟩ =>
    ⟨a, b, Tree.carriesGrows grows node, shownGrows grows l left, shownGrows grows r right⟩
  | .conditional c x y, _, ⟨a, b, d, node, test, yes, no⟩ =>
    ⟨a, b, d, Tree.carriesGrows grows node, shownGrows grows c test, shownGrows grows x yes,
      shownGrows grows y no⟩
  | .assignName _ _ v, _, ⟨a, b, node, target, value⟩ =>
    ⟨a, b, Tree.carriesGrows grows node, Tree.carriesGrows grows target, shownGrows grows v value⟩
  | .assignProperty o _ _ _ v, _, ⟨a, b, node, ⟨c, d, target, object, property⟩, value⟩ =>
    ⟨a, b, Tree.carriesGrows grows node, ⟨c, d, Tree.carriesGrows grows target,
      shownGrows grows o object, Tree.carriesGrows grows property⟩, shownGrows grows v value⟩
  | .access o _ _, _, ⟨c, d, node, object, property⟩ =>
    ⟨c, d, Tree.carriesGrows grows node, shownGrows grows o object, Tree.carriesGrows grows property⟩
  | .call f args, _, ⟨a, row, node, callee, shown⟩ =>
    ⟨a, row, Tree.carriesGrows grows node, shownGrows grows f callee, allShownGrows grows args shown⟩
  | .nonNull e, _, ⟨a, node, inner⟩ => ⟨a, Tree.carriesGrows grows node, shownGrows grows e inner⟩
  | .paren e, _, ⟨a, node, inner⟩ => ⟨a, Tree.carriesGrows grows node, shownGrows grows e inner⟩

theorem allShownGrows {t t' : Tree} (grows : t.Grows t') :
    (es : List Expr) → {ss : List Slot} → AllShownIn t es ss → AllShownIn t' es ss
  | [], [], _ => trivial
  | e :: es, _ :: _, ⟨first, others⟩ => ⟨shownGrows grows e first, allShownGrows grows es others⟩

end

end Expr
end CallGuard
