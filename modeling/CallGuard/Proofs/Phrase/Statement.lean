import CallGuard.Proofs.Parser.Program
import CallGuard.Proofs.Phrase.Expression

/-! Each rule for statements and classes reads what the rules of the language say. -/
namespace CallGuard.Phrase
open Parse

attribute [local simp] presentLinks presentChildren Payload.slots Payload.inOrder

variable {sub : SubParse} {t : Token} {start : Nat} {known : Option Token} {held : List NodeId}
  {row : List Part} {facts : Prop} {c : Category}

/-! ### Rows of statements -/

theorem goesStatement (h : SubRules sub) (wholeFile : Bool) (start : Nat) (statements : List Slot)
    (row : List Part) : Going start none (refs statements) row (Statements statements row)
      (statementStep sub wholeFile statements) (Round Statements Statements) := by
  have goes {before : Nat} {held : List NodeId} {row : List Part} {facts : Prop}
      (statements : List Slot) (part : (refs statements).Sublist held)
      (made : facts → Statements statements row) : Going start none held row facts
        (do
          if (← here) == before && !(← token).isEnd then
            reportHere .statementExpected
            advance
          return .yield statements : Parse (ForInStep (List Slot)))
        (Round Statements Statements) :=
    .know fun _ => .see seesHere (.see seesToken (.branch
      (fun stuck => .report (.advance (Bool.not_eq_true' _ ▸ (Bool.and_eq_true_iff.mp stuck).2)
        (.pure part False.elim)))
      fun _ => .pure part made))
  refine .know fun t => .see seesKind (.branch (fun _ => .kept id) fun _ => .branch
    (fun brace => .branch
      (fun _ => .report (.advance (moreThere (beq_iff_eq.mp brace)) (.kept False.elim)))
      fun _ => .kept id)
    fun _ => .see seesHere (.next h.statement fun s more => ?_))
  cases s with
  | none => exact goes statements (by simp) (by rintro ⟨_, ⟨⟩⟩)
  | some i => exact goes (some i :: statements) (by simp) fun ⟨before, stated⟩ => .next before stated

theorem formsStatementList (h : SubRules sub) (wholeFile : Bool) :
    Forms (statementList sub wholeFile) fun l row => Statements l.items.reverse row :=
  .begins fun _ => .first (.collect (goesStatement h wholeFile) (fun _ _ => id) .nil) fun _ _ =>
    .items _ fun _ same statements => same ▸ statements

theorem formsBlock (h : SubRules sub) : Forms (block sub) (IsNode .block) := by
  refine .plain fun t => .enter (.see seesHere (.pass (formsExpect _) fun _ _ =>
    .next (formsStatementList h _) fun _ _ => .pass (formsExpect _) fun _ _ =>
    .leave (.finish .block (by simp) ?_ nofun))) (.report .absent)
  rintro ⟨⟨⟨_, ⟨opens⟩⟩, statements⟩, ⟨closes⟩⟩
  exact .block opens statements closes

theorem formsEmptyStatement : Forms emptyStatement (IsNode .statement) := by
  refine .begins fun _ => .pass (formsExpect _) fun _ _ => .add (fun _ => rfl) (fun _ => .refl _)
    (fun _ => nofun) (fun _ => ?_) fun _ => .mk _
  rintro ⟨_, ⟨kind⟩⟩
  exact .empty kind

theorem formsExpressionStatement (h : SubRules sub) :
    Forms (expressionStatement sub) (IsNode .statement) := by
  refine .begins fun t => .first (formsExpression h) fun inner m => .know fun u => .see seesHere
    (.branch (fun same => .stuck (beq_iff_eq.mp same) ?_ (.pure (List.nil_sublist _) False.elim))
      fun _ => .pass formsEndStatement fun _ _ => .finish .statement (by simp) ?_ nofun)
  · rintro ⟨x⟩
    exact ⟨_, List.mem_cons_self, rfl⟩
  · rintro ⟨⟨x⟩, _, semicolon⟩
    exact .expressionStatement semicolon

/-! ### Declarations -/

theorem formsVariable (h : SubRules sub) :
    Forms (variableDeclaration sub) (IsNode .declaration) := by
  refine .begins fun _ => .first (formsBindingName h) fun name _ => .pass (formsAccept _) fun _ _ =>
    .next formsOptionalType fun type _ => .next (formsInitializer h) fun init _ =>
      .finish .declaration (by simp) ?_ nofun
  rintro ⟨⟨⟨⟨n⟩, bangs⟩, typed⟩, initial⟩
  simpa using Made.declarator (d := ⟨some n, type, init⟩) rfl bangs typed initial

theorem goesDeclaration (h : SubRules sub) (start : Nat) (items : List Slot) (row : List Part) :
    Going start none (refs items) row (Led [.declaration] items row) (declarationStep sub items)
      (Round (Led [.declaration]) (Listed [.declaration])) :=
  .next (formsVariable h) fun _ _ => goesItem (IsNode.among (by simp))

theorem formsVariables (h : SubRules sub) (word : isDeclarator t.kind) :
    FormsAt (some t) (variableDeclarations sub) (IsNode .declarations) := by
  have more : t.isEnd = false := by
    rcases word with word | word | word <;> exact moreThere word
  refine .begins (.see seesKind (.advance more (.pass formsHere fun listStart _ =>
    .next (.collect (goesDeclaration h) (fun _ _ => .led) .nil) fun items _ =>
    .last (.items listStart ?_) fun _ _ => goesMarked .declarations rfl (by simp) id)))
  rintro l same ⟨⟨_, rfl⟩, listed⟩
  rw [← same] at listed
  simpa using Made.declarations word listed

theorem formsStretch (s : Slot) : Forms (stretch s) fun _ row => row = [] := by
  intro st ordered _
  cases s with
  | none => exact ⟨[], .rest ordered, List.nil_sublist _, fun _ => rfl⟩
  | some i => exact ⟨[], ⟨ordered, ordered, Tree.growsStop _ _ _, List.suffix_refl _, .nil _⟩,
      List.nil_sublist _, fun _ => rfl⟩

/- The statement is the node of its declarations; what ends it stands behind that node. -/
theorem formsVariableStatement (h : SubRules sub) (word : isDeclarator t.kind) :
    FormsAt (some t) (variableStatement sub) Stated := by
  refine .plain (.firstAt (formsVariables h word) fun node _ => .pass formsEndStatement fun _ _ =>
    .pass (formsStretch _) fun _ _ => .kept ?_)
  rintro ⟨⟨⟨x⟩, _, semicolon⟩, rfl⟩
  simpa using Stated.declarations semicolon

theorem formsFunctionDeclaration (h : SubRules sub) :
    Forms (functionDeclaration sub) (IsNode .statement) := by
  refine .begins fun _ => .pass formsFunctionMarks fun _ _ =>
    .next (formsName (.inr (.inl rfl))) fun name _ => goesMethodRest h _ rfl ?_
  rintro ⟨⟨_, marks⟩, ⟨x⟩⟩
  exact .declaration marks

/-! ### Control flow -/

theorem formsCondition (h : SubRules sub) : Forms (condition sub) Tested := by
  refine .plain fun _ => .pass (formsExpect _) fun _ _ => .next (formsExpression h) fun _ _ =>
    .pass (formsExpect _) fun _ _ => .kept ?_
  rintro ⟨⟨⟨_, ⟨opens⟩⟩, ⟨x⟩⟩, ⟨closes⟩⟩
  exact .mk opens closes

theorem formsIf (h : SubRules sub) : Forms (ifStatement sub) (IsNode .statement) := by
  refine .begins fun _ => .pass (formsExpect _) fun _ _ => .next (formsCondition h) fun test _ =>
    .next h.statement fun yes _ => .accept
      (fun _ there => .next h.statement fun no _ => .finish .statement (by simp) ?_ nofun)
      fun _ => .given (.finish .statement (by simp) ?_ nofun)
  · rintro ⟨⟨⟨⟨_, ⟨word⟩⟩, tested⟩, stated⟩, otherwise⟩
    simpa using Made.branch (b := ⟨test, yes, no⟩) word tested stated (.there there otherwise)
  · rintro ⟨⟨⟨_, ⟨word⟩⟩, tested⟩, stated⟩
    simpa using Made.branch (b := ⟨test, yes, none⟩) word tested stated .absent

theorem formsWhile (h : SubRules sub) : Forms (whileStatement sub) (IsNode .statement) := by
  refine .begins fun _ => .pass (formsExpect _) fun _ _ => .next (formsCondition h) fun _ _ =>
    .next h.statement fun _ _ => .finish .statement (by simp) ?_ nofun
  rintro ⟨⟨⟨_, ⟨word⟩⟩, tested⟩, stated⟩
  simpa using Made.repeated word tested stated

theorem formsDo (h : SubRules sub) : Forms (doStatement sub) (IsNode .statement) := by
  refine .begins fun _ => .pass (formsExpect _) fun _ _ => .next h.statement fun body _ =>
    .pass (formsExpect _) fun _ _ => .next (formsCondition h) fun test _ => .pass (formsAccept _)
      fun _ _ => .finish .statement ?_ ?_ nofun
  · show (present [body, test]).Sublist _
    simp
  · rintro ⟨⟨⟨⟨⟨_, ⟨word⟩⟩, stated⟩, ⟨again⟩⟩, tested⟩, semicolon⟩
    simpa using Made.done word stated again tested semicolon

theorem formsForInitializer (h : SubRules sub) (other : t.kind ≠ .punct .semicolon) :
    FormsAt (some t) (forInitializer sub) Begins := by
  refine .inForbidden _ (.plain (.see seesKind ?_))
  have declarations (word : isDeclarator t.kind) :
      FormsAt (some t) (variableDeclarations sub) Begins :=
    .weaken (formsVariables h word) fun _ _ ⟨_⟩ => .declarations
  split
  · exact absurd ‹_› other
  iterate 3 exact .whole (declarations (by simp [isDeclarator, *]))
  · exact .whole (.know (.weaken (formsExpression h) fun _ _ ⟨_⟩ => .expression))

theorem formsExpressionUnless (h : SubRules sub) (k : TokenKind) :
    Forms (expressionUnless sub k) (Perhaps .expression) :=
  .plain fun _ => .see (seesIsAt _) (.branch (fun _ => .pure (List.nil_sublist _) fun _ => .absent)
    fun _ => .whole (.know (.weaken (formsExpression h) fun _ _ ⟨_⟩ => .there)))

/- The head of a loop up to what it begins with. -/
inductive Looping : List Part → Prop where
  | mk {t o : Token} {awaits : Bool} {a : List Part} (word : t.kind = .word .forWord)
      (awaiting : Maybe (.word .awaitWord) awaits a) (opens : o.kind = .punct .openParen) :
      Looping (.token t :: (a ++ [.token o]))

theorem goesIteration (h : SubRules sub) {kind : NodeKind} {init : Slot} {m n : List Part}
    (plain : kind.isSuspension = false) (loops : Iterates kind t.kind) (more : t.isEnd = false) :
    Going start (some t) (refs init) (m ++ n) (Looping m ∧ Begins init n)
      (do
        advance
        let subject ← sub .assignment
        expect (.punct .closeParen)
        let body ← sub .statement
        finish kind start (.iteration ⟨init, subject, body⟩)) (IsNode .statement) := by
  refine .advance more (.next h.assignment fun _ _ => .pass (formsExpect _) fun _ _ =>
    .next h.statement fun _ _ => .finish .statement (by simp) ?_ fun own =>
      Bool.noConfusion (plain.symm.trans own))
  rintro ⟨⟨⟨⟨⟨word, awaiting, opens⟩, begins⟩, ⟨x⟩⟩, ⟨closes⟩⟩, stated⟩
  simpa using Made.iterated word awaiting opens begins loops closes stated

theorem goesCounted (h : SubRules sub) {init : Slot} {m n : List Part} :
    Going start known (refs init) (m ++ n) (Looping m ∧ (init = none ∧ n = [] ∨ Begins init n))
      (do
        expect (.punct .semicolon)
        let test ← expressionUnless sub (.punct .semicolon)
        expect (.punct .semicolon)
        let increment ← expressionUnless sub (.punct .closeParen)
        expect (.punct .closeParen)
        let body ← sub .statement
        finish .forStatement start (.loop ⟨init, test, increment, body⟩)) (IsNode .statement) := by
  refine .pass (formsExpect _) fun _ _ => .next (formsExpressionUnless h _) fun _ _ =>
    .pass (formsExpect _) fun _ _ => .next (formsExpressionUnless h _) fun _ _ =>
    .pass (formsExpect _) fun _ _ => .next h.statement fun _ _ => .finish .statement (by simp) ?_ nofun
  rintro ⟨⟨⟨⟨⟨⟨⟨⟨word, awaiting, opens⟩, begins⟩, ⟨first⟩⟩, tests⟩, ⟨second⟩⟩, steps⟩, ⟨closes⟩⟩, stated⟩
  simpa using Made.counted word awaiting opens begins first tests second steps closes stated

theorem forNothing {s : ParseState} (bare : s.cursor.current.kind = .punct .semicolon) :
    forInitializer sub s = (none, s) := by
  have within (p : Parse Slot) : withInForbidden true p s = ((p { s with inForbidden := true }).1,
      { (p { s with inForbidden := true }).2 with inForbidden := s.inForbidden }) := rfl
  rw [forInitializer, within, bindAt, seesKind]
  dsimp only
  rw [bare]
  rfl

theorem formsFor (h : SubRules sub) : Forms (forStatement sub) (IsNode .statement) := by
  refine .begins fun t => .pass (formsExpect _) fun _ w => .pass (formsAccept _) fun awaits a =>
    .pass (formsExpect _) fun _ o => .know fun u => ?_
  have head : ((True ∧ IsToken (.word .forWord) () w) ∧ Maybe (.word .awaitWord) awaits a) ∧
      IsToken (.punct .openParen) () o → Looping (w ++ a ++ o) := by
    rintro ⟨⟨⟨_, ⟨word⟩⟩, awaiting⟩, ⟨opens⟩⟩
    simpa using Looping.mk word awaiting opens
  by_cases bare : u.kind = .punct .semicolon
  · have other : iterates u = none := by rw [iterates, bare]; rfl
    have rest : Going t.start (some u) (refs (none : Slot)) (w ++ a ++ o ++ []) _ _ _ := goesCounted h
    rw [List.append_nil] at rest
    refine .settled (fun s there => forNothing (there ▸ bare)) (.see seesIteration ?_)
    rw [other]
    exact .learn rest fun first => ⟨head first, .inl ⟨rfl, rfl⟩⟩
  · refine .nextAt (formsForInitializer h bare) fun init n => .know fun v => .see seesIteration ?_
    cases loops : iterates v with
    | some kind =>
      rcases iteratesKind loops with ⟨rfl, word⟩ | ⟨rfl, word⟩
      · exact .learn (goesIteration h rfl (word ▸ .items) (moreThere word))
          fun ⟨first, begins⟩ => ⟨head first, begins⟩
      · exact .learn (goesIteration h rfl (word ▸ .keys) (moreThere word))
          fun ⟨first, begins⟩ => ⟨head first, begins⟩
    | none => exact .learn (goesCounted h) fun ⟨first, begins⟩ => ⟨head first, .inr begins⟩

theorem Exits.plain {kind : NodeKind} {k : TokenKind} (word : Exits kind k) :
    k.Proper ∧ kind.isSuspension = false := by
  cases word <;> exact ⟨inferInstance, rfl⟩

theorem formsExit (h : SubRules sub) {kind : NodeKind} (word : Exits kind t.kind) :
    FormsAt (some t) (exitStatement sub kind) (IsNode .statement) := by
  obtain ⟨_, plain⟩ := word.plain
  have rest {known : Option Token} (value : Slot) (m : List Part) :
      Going t.start known (refs value) ([.token t] ++ m) (Perhaps .expression value m)
        (do
          endStatement
          finish kind t.start (.exit value)) (IsNode .statement) := by
    refine .pass formsEndStatement fun _ _ => .finish .statement (by simp) ?_ fun own =>
      Bool.noConfusion (plain.symm.trans own)
    rintro ⟨valued, _, semicolon⟩
    simpa using Made.exits word valued semicolon
  refine .begins (.advance (moreThere rfl) (.know fun u => .see seesCanEnd (.branch
    (fun _ => .given (.learn (rest none []) fun _ => .absent))
    fun _ => .next (formsExpression h) fun _ _ => .learn (rest _ _) ?_)))
  rintro ⟨_, ⟨x⟩⟩
  exact .there

theorem Jumps.plain {kind : NodeKind} {k : TokenKind} (word : Jumps kind k) :
    k.Proper ∧ kind.isSuspension = false := by
  cases word <;> exact ⟨inferInstance, rfl⟩

theorem formsJump {kind : NodeKind} (word : Jumps kind t.kind) :
    FormsAt (some t) (jumpStatement kind) (IsNode .statement) := by
  obtain ⟨_, plain⟩ := word.plain
  have rest {known : Option Token} (label : Slot) (m : List Part) :
      Going t.start known (refs label) ([.token t] ++ m)
        (Perhaps .label label m)
        (do
          endStatement
          finish kind t.start (.jump label)) (IsNode .statement) := by
    refine .pass formsEndStatement fun _ _ => .finish .statement (by simp) ?_ fun own =>
      Bool.noConfusion (plain.symm.trans own)
    rintro ⟨labelled, _, semicolon⟩
    simpa using Made.jumps word labelled semicolon
  refine .begins (.advance (moreThere rfl) (.know fun u => .see (seesIsAt _)
    (.see seesAfterLineBreak (.branch
      (fun _ => .next (formsName (.inr (.inr rfl))) fun _ _ => .learn (rest _ _) ?_)
      fun _ => .given (.learn (rest none []) fun _ => .absent)))))
  rintro ⟨_, ⟨x⟩⟩
  exact .there

/- What a clause catches, behind its word. -/
inductive Catching (s : Slot) : List Part → Prop where
  | mk {t : Token} {caught : List Part} (word : t.kind = .word .catchWord) (catches : Catches s caught) :
      Catching s (.token t :: caught)

/- A clause begins with its word; elsewhere nothing is read. -/
theorem formsCatch (h : SubRules sub) (there : t.kind = .word .catchWord) :
    FormsAt (some t) (catchClause sub) (IsNode .handler) := by
  have rest {known : Option Token} {row : List Part} (binding : Slot) :
      Going t.start known (refs binding) row (Catching binding row)
        (do
          let body ← sub .block
          finish .catchClause t.start (.handler ⟨binding, body⟩)) (IsNode .handler) := by
    refine .next h.block fun _ _ => .finish .handler (by simp) ?_ nofun
    rintro ⟨⟨word, catches⟩, ⟨b⟩⟩
    exact .handler word catches
  refine .begins (.accept (fun w word => .accept
    (fun o opens => .next (formsVariable h) fun d _ => .pass (formsExpect _) fun _ _ =>
      .given (.learn (rest d) ?_))
    fun _ => .given (.learn (rest none) fun _ => .mk word .absent)) fun other => absurd there (other t rfl))
  rintro ⟨⟨_, ⟨x⟩⟩, ⟨closes⟩⟩
  exact .mk word (.there opens closes)

theorem catchNothing {s : ParseState} (other : s.cursor.current.kind ≠ .word .catchWord) :
    catchClause sub s = (none, s) := by
  rw [catchClause, bindAt, seesHere, bindAt, acceptElse other]
  rfl

theorem formsTry (h : SubRules sub) : Forms (tryStatement sub) (IsNode .statement) := by
  have ends (body handler finalizer : Slot) {start : Nat} {known : Option Token}
      {held : List NodeId} {row : List Part} {facts : Prop}
      (part : (refs body ++ refs handler ++ refs finalizer).Sublist held)
      (either : facts → handler ≠ none ∨ finalizer ≠ none)
      (made : facts → Made .statement .tryStatement
        (some (.attempt ⟨body, handler, finalizer⟩)) row) :
      Going start known held row facts
        (do
          if handler.isNone && finalizer.isNone then expect (.word .catchWord)
          finish .tryStatement start (.attempt ⟨body, handler, finalizer⟩)) (IsNode .statement) := by
    refine .branch (fun neither => .pass (formsExpect _) fun _ _ =>
      .finish .statement (by simpa using part) (fun ⟨known, _⟩ => ?_) nofun)
      fun _ => .finish .statement (by simpa using part) made nofun
    obtain ⟨handled, finalized⟩ := Bool.and_eq_true_iff.mp neither
    rcases either known with other | other
    · exact absurd (Option.isNone_iff_eq_none.mp handled) other
    · exact absurd (Option.isNone_iff_eq_none.mp finalized) other
  refine .begins fun t => .pass (formsExpect _) fun _ w => .next h.block fun body b =>
    .know fun u => ?_
  by_cases caught : u.kind = .word .catchWord
  · refine .nextAt (formsCatch h caught) fun handler m => .accept
      (fun f word => .next h.block fun finalizer n => ends _ _ _ (by simp) ?_ ?_)
      fun _ => .given (ends _ _ none (by simp) ?_ ?_)
    · rintro ⟨⟨_, ⟨_⟩⟩, _⟩
      exact .inl (Option.some_ne_none _)
    · rintro ⟨⟨⟨⟨_, ⟨tried⟩⟩, ⟨_⟩⟩, ⟨_⟩⟩, ⟨_⟩⟩
      simpa using Made.attempt tried .there (.there word) (.inl (Option.some_ne_none _))
    · rintro ⟨_, ⟨_⟩⟩
      exact .inl (Option.some_ne_none _)
    · rintro ⟨⟨⟨_, ⟨tried⟩⟩, ⟨_⟩⟩, ⟨_⟩⟩
      simpa using Made.attempt tried .there .absent (.inl (Option.some_ne_none _))
  · refine .settled (fun s there => catchNothing (there ▸ caught)) (.accept
      (fun f word => .next h.block fun finalizer n => ends _ none _ (by simp) ?_ ?_)
      fun _ => .given (.lacks caught (.finish .statement (by simp) False.elim nofun)))
    · rintro ⟨_, ⟨_⟩⟩
      exact .inr (Option.some_ne_none _)
    · rintro ⟨⟨⟨_, ⟨tried⟩⟩, ⟨_⟩⟩, ⟨_⟩⟩
      simpa using Made.attempt tried .absent (.there word) (.inr (Option.some_ne_none _))

/-! ### Classes -/

/- A member, or only the marks of one. -/
inductive MaybeMember : Slot → List Part → Prop where
  | member (i : NodeId) : MaybeMember (some i) [.node .classMember i]
  | marks {row : List Part} (marked : Marks row) : MaybeMember none row

theorem IsNode.member : ∀ x row, IsNode .classMember x row → MaybeMember x row := by
  rintro _ _ ⟨i⟩
  exact .member i

/- The name of a field with the marks on both its sides. -/
inductive FieldName : Slot → List Part → Prop where
  | mk {n : NodeId} {marks q e : List Part} {asked banged : Bool} (marked : Marks marks)
      (asks : Maybe (.punct .question) asked q) (bangs : Maybe (.punct .bang) banged e) :
      FieldName (some n) (marks ++ .node .key n :: (q ++ e))

theorem goesField (h : SubRules sub) {name : Slot} (flags : NodeFlags) :
    Going start known (refs name) row (FieldName name row)
      (do
        let type ← optionalType
        let init ← initializer sub
        endStatement
        let node ← finish .propertyDeclaration start (.field ⟨name, type, init⟩)
        addFlags node flags
        return node) (IsNode .classMember) := by
  refine .next formsOptionalType fun type _ => .next (formsInitializer h) fun init _ =>
    .pass formsEndStatement fun _ _ => goesMarked .classMember rfl (by simp) ?_
  rintro ⟨⟨⟨⟨marked, asks, bangs⟩, typed⟩, initial⟩, _, semicolon⟩
  simpa using Made.field (d := ⟨_, type, init⟩) marked rfl asks bangs typed initial semicolon

theorem formsClassMember (h : SubRules sub) : Forms (classMember sub) MaybeMember := by
  refine .begins fun t => .pass (formsMarks _) fun flags marks => .know fun u =>
    .peek peeksConstructor fun _ word => .branch
      (fun yes => .advance (moreThere (word yes)) (.weaken (A := IsNode .classMember) ?_ IsNode.member))
      fun _ => .see seesKind (.branch (fun _ => .weaken (A := IsNode .classMember) ?_ IsNode.member)
        fun _ => .pure (List.nil_sublist _) fun ⟨_, marked⟩ => .marks marked)
  · show Going _ _ (refs (none : Slot)) _ _ _ _
    exact goesMethodRest h _ rfl fun ⟨_, marked⟩ => .constructor (.next marked (.inl (word yes)))
  · refine .next (formsPropertyName h) fun name _ => .pass (formsAccept _) fun _ _ =>
      .pass (formsAccept _) fun _ _ => .pass (formsSeen seesStartsMethod) fun _ _ => .branch
        (fun _ => goesMethodRest h _ rfl ?_) fun _ => ?_
    · rintro ⟨⟨⟨⟨⟨_, marked⟩, ⟨x⟩⟩, asks⟩, bangs⟩, rfl⟩
      simpa using Headed.classMethod marked asks bangs
    · refine .learn (goesField h _) ?_
      rintro ⟨⟨⟨⟨⟨_, marked⟩, ⟨x⟩⟩, asks⟩, bangs⟩, rfl⟩
      simpa using FieldName.mk marked asks bangs

theorem goesMember (h : SubRules sub) (start : Nat) (members : List Slot) (row : List Part) :
    Going start none (refs members) row (Members members row) (memberStep sub members)
      (Round Members Members) := by
  have held {before : Nat} {u : Token} {held : List NodeId} {row : List Part} {facts : Prop}
      (more : u.start = before → u.isEnd = false) (members : List Slot)
      (part : (refs members).Sublist held) (made : facts → Members members row) :
      Going start (some u) held row facts
        (do
          if (← here) == before then
            reportHere .unexpectedToken
            advance
          return .yield members : Parse (ForInStep (List Slot))) (Round Members Members) :=
    .see seesHere (.branch
      (fun same => .report (.advance (more (beq_iff_eq.mp same)) (.pure part False.elim)))
      fun _ => .pure part made)
  have ends {before : Nat} {u : Token} (m : Slot) (n : List Part)
      (more : u.start = before → u.isEnd = false) {further : List Slot}
      (same : further = m.elim members (some · :: members)) :
      Going start (some u) (refs members ++ refs m) (row ++ n) (Members members row ∧ MaybeMember m n)
        (do
          if (← here) == before then
            reportHere .unexpectedToken
            advance
          return .yield further : Parse (ForInStep (List Slot))) (Round Members Members) := by
    subst same
    cases m with
    | none => exact held more members (by simp) fun ⟨first, .marks marked⟩ => .marks first marked
    | some i => exact held more (some i :: members) (by simp) fun ⟨first, .member i⟩ => .member first
  exact .know fun t => .see seesKind (.branch (fun _ => .kept id) fun other =>
    .accept (fun _ semicolon => .kept fun first => .semicolon first semicolon) fun _ =>
    .see seesHere (.either (formsClassMember h)
      (fun m n u behind => ends m n (fun same => absurd same (Nat.ne_of_gt behind))
        (by cases m <;> rfl))
      fun m n => ends m n (fun _ => beq_eq_false_iff_ne.mpr fun ends => other (by rw [ends]; rfl))
        (by cases m <;> rfl)))

theorem formsClassMembers (h : SubRules sub) :
    Forms (classMembers sub) fun l row => Members l.items.reverse row :=
  .begins fun _ => .first (.collect (goesMember h) (fun _ _ => id) .nil) fun _ _ =>
    .items _ fun _ same members => same ▸ members

/- A class up to its type parameters, and up to its interfaces. -/
inductive Titled : Slot → List Part → Prop where
  | mk {t : Token} {s : Slot} {name : List Part} (word : t.kind = .word .classWord)
      (named : Perhaps .binding s name) : Titled s (.token t :: name)

inductive Derived : Slot → Slot → List Part → Prop where
  | mk {s base : Slot} {title types heritage : List Part} (titled : Titled s title)
      (dropped : Dropped types) (extended : Extends base heritage) :
      Derived s base (title ++ (types ++ heritage))

theorem goesClassRest (h : SubRules sub) {name heritage : Slot} :
    Going start known (refs name ++ refs heritage) row (Derived name heritage row)
      (do
        skipInterfaces
        expect (.punct .openBrace)
        let members ← classMembers sub
        expect (.punct .closeBrace)
        finish .classDeclaration start (.classBody ⟨name, heritage, members⟩)) (IsNode .statement) := by
  refine .pass (.dropped readsInterfaces) fun _ _ => .pass (formsExpect _) fun _ _ =>
    .next (formsClassMembers h) fun members _ => .pass (formsExpect _) fun _ _ =>
      .finish .statement (by simp) ?_ nofun
  rintro ⟨⟨⟨⟨⟨⟨word, named⟩, dropped, extended⟩, interfaces⟩, ⟨opens⟩⟩, given⟩, ⟨closes⟩⟩
  simpa using Made.classDeclaration (d := ⟨name, heritage, members⟩) word named dropped extended
    interfaces opens given closes

theorem goesTitled (h : SubRules sub) {name : Slot} :
    Going start known (refs name) row (Titled name row)
      (do
        dropTypeArguments
        let heritage ←
          if ← accept (.word .extendsWord) then
            let base ← leftHandSide sub
            dropTypeArguments
            pure base
          else pure none
        skipInterfaces
        expect (.punct .openBrace)
        let members ← classMembers sub
        expect (.punct .closeBrace)
        finish .classDeclaration start (.classBody ⟨name, heritage, members⟩)) (IsNode .statement) := by
  refine .pass formsDropTypeArguments fun _ _ => .accept
    (fun _ word => .next (formsLeftHandSide h) fun _ _ => .pass formsDropTypeArguments fun _ _ =>
      .given (.learn (goesClassRest h) ?_))
    fun _ => .given (.drop (.learn (goesClassRest h) ?_) (by simp))
  · rintro ⟨⟨⟨titled, dropped⟩, ⟨x⟩⟩, more⟩
    simpa using Derived.mk titled dropped (.there word more)
  · rintro ⟨titled, dropped⟩
    simpa using Derived.mk titled dropped .absent

theorem formsClass (h : SubRules sub) : Forms (classDeclaration sub) (IsNode .statement) := by
  refine .begins fun _ => .pass (formsExpect _) fun _ _ => .know fun _ => .see (seesIsAt _)
    (.see (seesContextual _) (.branch
      (fun _ => .next (formsName (.inr (.inl rfl))) fun _ _ => .learn (goesTitled h) ?_)
      fun _ => .given (.drop (.learn (goesTitled h) ?_) (by simp))))
  · rintro ⟨⟨_, ⟨word⟩⟩, ⟨x⟩⟩
    exact .mk word .there
  · rintro ⟨_, ⟨word⟩⟩
    exact .mk word .absent

/-! ### All productions -/

theorem IsNode.stated {c : Category} (role : c = .statement ∨ c = .block) :
    ∀ x row, IsNode c x row → Stated x row := by
  rintro _ _ ⟨i⟩
  rcases role with rfl | rfl
  · exact .plain
  · exact .block

theorem formsStatement (h : SubRules sub) : Forms (statement sub) Stated := by
  refine .nested (.plain fun t => .see seesKind ?_) fun _ _ => .report .absent
  have whole {p : Parse Slot} (own : FormsAt (some t) p (IsNode .statement)) :
      Going t.start (some t) [] [] True p Stated := .whole (.weaken own (IsNode.stated (.inl rfl)))
  split
  · exact .whole (.know (.weaken h.block (IsNode.stated (.inr rfl))))
  · exact whole (.know formsEmptyStatement)
  iterate 3 exact .whole (formsVariableStatement h (by simp [isDeclarator, *]))
  · exact whole (.know (formsFunctionDeclaration h))
  · exact .peek peeksAsync fun _ _ => .branch (fun _ => whole (.know (formsFunctionDeclaration h)))
      fun _ => whole (.know (formsExpressionStatement h))
  · exact whole (.know (formsClass h))
  · exact whole (.know (formsIf h))
  · exact whole (.know (formsWhile h))
  · exact whole (.know (formsDo h))
  · exact whole (.know (formsFor h))
  · exact whole (formsExit h (by simp only [*]; exact .returns))
  · exact whole (formsExit h (by simp only [*]; exact .throws))
  · exact whole (formsJump (by simp only [*]; exact .breaks))
  · exact whole (formsJump (by simp only [*]; exact .continues))
  · exact whole (.know (formsTry h))
  · exact whole (.know (formsExpressionStatement h))

theorem formsRule (h : SubRules sub) : SubRules (rule sub) where
  statement := formsStatement h
  block := formsBlock h
  assignment := formsAssignment h
  binary := formsBinary h
  unary := formsUnary h
  newExpression := formsNewExpression h
  arrayLiteral := formsArrayLiteral h
  objectLiteral := formsObjectLiteral h

end CallGuard.Phrase
