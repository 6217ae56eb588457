import CallGuard.Proofs.Expression.Reading

/-! Parsing takes back what printing does: the text of an expression is a program of one statement,
which holds that expression, with parentheses where they were written. -/
namespace CallGuard

/- A row of statements is the expression and nothing else. -/
def Expr.StatedIn (t : Tree) (e : Expr) (row : List Slot) : Prop :=
  ∃ a inner, row = [a] ∧ t.Carries a .expressionStatement (some (.expressionStatement inner)) ∧
    e.ShownIn t inner

theorem Expr.statedGrows {t t' : Tree} {e : Expr} {row : List Slot} (grows : t.Grows t')
    (stated : e.StatedIn t row) : e.StatedIn t' row := by
  obtain ⟨a, inner, alone, node, shown⟩ := stated
  exact ⟨a, inner, alone, Tree.carriesGrows grows node, e.shownGrows grows shown⟩

namespace Parse
variable {e : Expr} {fuel : Nat} {s : ParseState}

theorem expressionStatementReads (tight : e.Tight) (enough : 2 * e.marks.length ≤ fuel)
    (room : s.depth + e.nesting ≤ maxNesting)
    (ready : Ready s (e.lexed [(Mark.punct .semicolon).lex, Lex.stop])) :
    Delivers (expressionStatement (production (fuel + 1))) s [Lex.stop] fun t a => e.StatedIn t [a] := by
  have fits : Fits e (e.marks.length + 1) fuel (s.depth + 1) :=
    ⟨tight, Nat.lt_succ_self _, enough, by omega⟩
  have inner := expressionReads ((readable _).assignment fits ready rfl) nofun
  have some := e.marksPos
  refine .place (.bindFurther ready (readsExpression (productionAgrees _)) (by simp; omega) inner ?_)
  intro a s₁ ready₁ calm₁ shown further
  refine .place ?_
  rw [beq_eq_false_iff_ne.mpr (Nat.ne_of_gt further)]
  refine .bind (P := fun _ _ => True)
    (.accept ready₁ nofun rfl fun s' ready _ => .pure ready trivial) fun _ s₂ ready₂ calm₂ _ => ?_
  refine .weaken (.finish ready₂) fun t b grows node => ?_
  exact ⟨b, a, rfl, node, e.shownGrows (calm₂.grows.trans grows) shown⟩

theorem statementReads (tight : e.Tight) (enough : 2 * e.marks.length ≤ fuel)
    (room : s.depth + e.nesting < maxNesting)
    (ready : Ready s (e.lexed [(Mark.punct .semicolon).lex, Lex.stop])) :
    Delivers (statement (production (fuel + 1))) s [Lex.stop] fun t a => e.StatedIn t [a] := by
  obtain ⟨m, more, same, opens, second⟩ := (e.begins.punct .semicolon []).first
  have row : e.lexed [(Mark.punct .semicolon).lex, Lex.stop] =
      m.lex :: (more.map Mark.lex ++ [Lex.stop]) := by
    have whole := congrArg (fun row => row.map Mark.lex ++ [Lex.stop]) same
    simpa [Expr.lexed] using whole
  obtain ⟨next, others, rfl⟩ : ∃ next others, more = next :: others := by
    cases more with
    | nil =>
      have some := e.marksPos
      have long := congrArg List.length same
      simp only [List.length_append, List.length_cons] at long
      omega
    | cons next others => exact ⟨next, others, rfl⟩
  refine .nested ready (by omega) fun s₁ ready₁ deeper => ?_
  have body : Delivers (expressionStatement (production (fuel + 1))) s₁ [Lex.stop] fun t a => e.StatedIn t [a] :=
    expressionStatementReads tight enough (by omega) ready₁
  rw [row] at ready₁
  refine .kind ready₁ (show m.lex.kind = m.kind from rfl) ?_
  generalize m.kind = k at opens second ⊢
  cases k with
  | identifier => exact .noAsync ready₁ (second rfl next rfl) body
  | word w => cases w <;> first | contradiction | exact body
  | punct p => cases p <;> first | contradiction | exact body
  | _ => first | contradiction | exact body

theorem statementListReads (tight : e.Tight) (enough : 2 * e.marks.length ≤ fuel)
    (room : s.depth + e.nesting < maxNesting)
    (ready : Ready s (e.lexed [(Mark.punct .semicolon).lex, Lex.stop])) :
    Delivers (statementList (production (fuel + 2)) true) s [Lex.stop]
      fun t row => e.StatedIn t row.items := by
  obtain ⟨m, more, same, opens, -⟩ := e.begins.first
  obtain ⟨noEnd, -, -, noBrace, -⟩ := opensExpressionPlain opens
  have here : Ready s (m.lex :: (more.map Mark.lex ++ [(Mark.punct .semicolon).lex, Lex.stop])) := by
    simpa [Expr.lexed, same] using ready
  refine .here fun start => .bind (P := fun t row => e.StatedIn t row.reverse)
    (show Delivers _ s [Lex.stop] _ from .loop ready fun rounds long => ?_) ?_
  · cases rounds with
    | nil => simp at long
    | cons t rounds =>
      refine .goesOn (S := fun t row => e.StatedIn t row.reverse)
        (show Delivers _ s [Lex.stop] _ from ?_) ?_
      · refine .kind here (show m.lex.kind = m.kind from rfl) ?_
        rw [beq_eq_false_iff_ne.mpr noEnd, beq_eq_false_iff_ne.mpr noBrace]
        refine .here fun before => .bind (statementReads tight enough room ready) ?_
        intro a s₁ ready₁ _ stated
        obtain ⟨_, inner, alone, ⟨i, node, rfl, found⟩, shown⟩ := stated
        obtain rfl := (List.cons.inj alone).1
        refine .here fun after => .token ready₁ fun t same => ?_
        have ends : t.isEnd = true := beq_iff_eq.mpr (congrArg Lex.kind same)
        rw [ends, Bool.not_true, Bool.and_false]
        exact .pure ready₁ ⟨_, rfl, some i, inner, rfl, ⟨i, node, rfl, found⟩, shown⟩
      · intro row s₁ ready₁ _ held
        exact .stops rounds (.kind ready₁ rfl (.pure ready₁ ⟨row, rfl, held⟩))
  · intro row s₁ ready₁ _ held
    exact .prevStop fun stop => .pure ready₁ held

end Parse

namespace Program

theorem initialReady {text : List Char} {e : Expr}
    (clean : Scan.Clean (Scan.ofText text) (e.lexed [(Mark.punct .semicolon).lex, Lex.stop])) :
    Parse.Ready (initialState ((Scan.ofText text).map (·.token)))
      (e.lexed [(Mark.punct .semicolon).lex, Lex.stop]) := by
  have ordered : (initialState ((Scan.ofText text).map (·.token))).cursor.Ordered :=
    initialOrdered text
  have lexes : ((Scan.ofText text).map (·.token)).map Token.lex =
      e.lexed [(Mark.punct .semicolon).lex, Lex.stop] := by
    rw [List.map_map]
    exact clean.1
  generalize (Scan.ofText text).map (·.token) = tokens at ordered lexes
  cases tokens with
  | nil => exact absurd lexes.symm (e.lexedSome _ _)
  | cons t tokens =>
    refine ⟨ordered, lexes, fun l member => ?_, rfl⟩
    rcases List.mem_append.mp member with inside | behind
    · obtain ⟨m, held, rfl⟩ := List.mem_map.mp inside
      exact e.noArrow m held
    · simp only [List.mem_cons, List.not_mem_nil, or_false] at behind
      rcases behind with rfl | rfl <;> nofun

theorem initialBlank (tokens : List Token) :
    (initialState tokens).depth = 0 ∧ (initialState tokens).cursor.errors = [] := by
  cases tokens <;> exact ⟨rfl, rfl⟩

/- With parentheses where they are needed an expression is parsed as what it is. -/
theorem printedParses (e : Expr) (blanks : Nat) (fileName : String)
    (shallow : e.group.nesting < maxNesting) :
    let text := e.group.print blanks
    let p := parse fileName text
    p.errors = [] ∧ ∃ row, e.group.StatedIn p.tree row.items ∧
      p.tree.Carries (some p.root) .sourceFile (some (.sourceFile ⟨row, fileName, text⟩)) := by
  intro text p
  have clean : Scan.Clean (Scan.ofText text)
      (e.group.lexed [(Mark.punct .semicolon).lex, Lex.stop]) :=
    Scan.cleanJoin e.group.marks (List.ne_nil_of_length_pos e.group.marksPos) blanks 0 0
  have count : ((Scan.ofText text).map (·.token)).length = e.group.marks.length + 2 := by
    simpa using congrArg List.length clean.1
  obtain ⟨flat, faultless⟩ := initialBlank ((Scan.ofText text).map (·.token))
  have enough : 2 * e.group.marks.length ≤ 8 * ((Scan.ofText text).map (·.token)).length + 14 := by
    omega
  obtain ⟨row, s, run, _, calm, stated⟩ :=
    Parse.statementListReads e.groupTight enough (by omega) (initialReady clean)
  have read : statements ((Scan.ofText text).map (·.token)) = (row, s) := run
  have lexical : (Scan.ofText text).filterMap (·.error?) = [] := by
    simpa using clean.2
  have parsed : p = ⟨s.tree.add (.holding .sourceFile 0 (Text.byteLength text)
      (.sourceFile ⟨row, fileName, text⟩)), s.tree.size, []⟩ := by
    simp [p, parse, read, lexical, calm.errors, faultless]
  obtain ⟨file, found, same⟩ := Tree.addNew s.tree
    (.holding .sourceFile 0 (Text.byteLength text) (.sourceFile ⟨row, fileName, text⟩))
  rw [parsed]
  exact ⟨rfl, row, Expr.statedGrows (Tree.growsAdd _ _) stated, _, file, rfl, found, same.kind,
    same.payload⟩

/- A product of a sum and a call, the one in parentheses. -/
def productOfSum : Expr :=
  .binary ⟨.punct .asterisk, by decide, by decide⟩
    (.binary ⟨.punct .plus, by decide, by decide⟩ (.name ⟨⟨"a", by decide +kernel⟩, by decide⟩)
      (.constant ⟨.thisWord, rfl⟩))
    (.call (.access (.name ⟨⟨"b", by decide +kernel⟩, by decide⟩) true ⟨"c", by decide +kernel⟩)
      [.number ⟨"1", by decide, by decide⟩])

theorem productParses :
    productOfSum.group.print 0 = "( a + this ) * b ?. c ( 1 );".toList ∧
      productOfSum.group.nesting < maxNesting ∧
      let p := parse "input.ts" (productOfSum.group.print 0)
      p.errors = [] ∧ ∃ row, productOfSum.group.StatedIn p.tree row.items ∧
        p.tree.Carries (some p.root) .sourceFile
          (some (.sourceFile ⟨row, "input.ts", productOfSum.group.print 0⟩)) :=
  ⟨by decide, by decide, printedParses productOfSum 0 "input.ts" (by decide)⟩

end Program
end CallGuard
