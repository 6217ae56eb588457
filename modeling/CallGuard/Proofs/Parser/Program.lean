import CallGuard.Proofs.Parser.Grammar

/-! Statements, classes and whole files. Enough productions inside one another read a text as any
larger number of them does, and what they do is a trace from the first token to the last. -/
namespace CallGuard
namespace Parse

attribute [local simp] presentLinks Payload.slots

section Statements
variable {b : Option Nat} {sub sub' : SubParse} {t : Token}

/- A statement that takes nothing is dropped with its first token, which is not the end token. -/
theorem goesStatement (h : Agree b sub sub') (wholeFile : Bool) (start : Nat)
    (statements : List Slot) :
    Goes b 4 .begun none start (refs statements) .begun (statementStep sub wholeFile statements)
      (statementStep sub' wholeFile statements) := by
  refine .know fun t => .see seesKind (.branch (fun _ => .finished) fun _ => .branch
    (fun brace => .branch
      (fun _ => .report (.advance (moreThere (beq_iff_eq.mp brace)) .yielded))
      fun _ => .finished)
    fun _ => .see seesHere (.next h.statement fun s => ?_))
  have held (statements : List Slot) : Goes b 4 .tried none start (refs statements) .begun
      (do
        if (← here) == t.start && !(← token).isEnd then
          reportHere .statementExpected
          advance
        return .yield statements : Parse (ForInStep (List Slot)))
      (do
        if (← here) == t.start && !(← token).isEnd then
          reportHere .statementExpected
          advance
        return .yield statements) :=
    .know fun _ => .see seesHere (.see seesToken (.branch
      (fun stuck => .report (.advance
        (Bool.not_eq_true' _ ▸ (Bool.and_eq_true_iff.mp stuck).2) .yielded))
      fun _ => .yielded))
  cases s with
  | none => exact .weaken (held statements) (by simp)
  | some i => exact .weaken (held (some i :: statements)) (by simp)

theorem readsStatementList (h : Agree b sub sub') (wholeFile : Bool) :
    Reads b 4 .begun (statementList sub wholeFile) (statementList sub' wholeFile) :=
  .begins fun _ => .first (.collect (goesStatement h wholeFile)) fun _ => goesRow _ _

/- The statements of a block and its braces. -/
def braced (sub : SubParse) : Parse NodeList := do
  expect (.punct .openBrace)
  let statements ← statementList sub false
  expect (.punct .closeBrace)
  return statements

/- A block begins where its brace stands, and is left before its node is made. -/
theorem readsBlockOf {r : Nat} (inner : ReadsAt b r .tried t (braced sub) (braced sub')) :
    ReadsAt b r .tried t (block sub) (block sub') := by
  rintro s rfl ordered fits
  have last (statements : NodeList) : Goes b r .tried none s.cursor.current.start (refs statements)
      .tried (finish .block s.cursor.current.start (.block statements))
      (finish .block s.cursor.current.start (.block statements)) :=
    goesFinish rfl rfl (by simp)
  unfold block
  rw [bindAt, bindAt]
  by_cases room : s.depth < maxNesting
  · rw [enterRoom room]
    obtain ⟨same, read⟩ := inner { s with depth := s.depth + 1 } rfl ordered fits
    obtain ⟨ts, _, course, made⟩ := read.course
    obtain ⟨same', after⟩ := last _ s _ rfl (unknown _)
      ((Held.begin ordered fits).chain (.nest room course) made)
    have all (sub : SubParse) : (do
        let start ← here
        expect (.punct .openBrace)
        let statements ← statementList sub false
        expect (.punct .closeBrace)
        leave
        finish .block start (.block statements) : Parse Slot) { s with depth := s.depth + 1 } =
      (braced sub >>= fun statements => leave >>= fun _ =>
        finish .block s.cursor.current.start (.block statements)) { s with depth := s.depth + 1 } := rfl
    rw [if_pos rfl, if_pos rfl, all, all]
    refine ⟨bindSame same (bindSame (p := leave) rfl ?_), after⟩
    exact same'
  · rw [enterFull (Nat.not_lt.mp room), if_neg Bool.false_ne_true, if_neg Bool.false_ne_true]
    have fails := reportFails ordered .nestedTooDeeply
    exact ⟨rfl, ordered, fits, [], [], .report s _, fun _ clean => absurd clean fails⟩

theorem readsBlock (h : Agree b sub sub') : Reads b 4 .tried (block sub) (block sub') :=
  .at fun _ => readsBlockOf (.anywhere (.plain fun _ => .pass (readsExpect _) fun _ =>
    .first (readsStatementList h _) fun _ => .pass (readsExpect _) fun _ => .kept))

theorem readsBlockAt (h : Agree b sub sub') (there : t.kind = .punct .openBrace) :
    ReadsAt b 0 .tried t (block sub) (block sub') :=
  readsBlockOf (.plain (.takes there (.first (readsStatementList h _) fun _ =>
    .pass (readsExpect _) fun _ => .kept)))

theorem readsEmptyStatement (there : t.kind = .punct .semicolon) :
    ReadsAt b 0 .moved t emptyStatement emptyStatement :=
  .begins (.takes there (goesAdd (fun _ => ⟨bareAgrees _ _ _, nofun⟩) (fun _ => rfl) (fun _ => rfl)
    (fun _ => rfl) (fun _ => .refl _) (fun _ _ => rfl) (fun _ own => by cases own)
    fun _ => NodeFlags.realNone))

theorem readsExpressionStatement (h : Agree b sub sub') :
    Reads b 3 .tried (expressionStatement sub) (expressionStatement sub') :=
  .begins fun _ => .first (readsExpression h) fun _ => .pass seesHere.reads fun _ => .branch
    (fun _ => .drop .absent (List.nil_sublist _))
    fun _ => .pass readsEndStatement fun _ => goesFinish rfl rfl (by simp)

/-! ### Declarations -/

theorem readsVariable (h : Agree b sub sub') :
    Reads b 1 .tried (variableDeclaration sub) (variableDeclaration sub') :=
  .begins fun _ => .first (readsBindingName h) fun _ => .pass (readsAccept _) fun _ =>
    .next readsOptionalType fun _ => .next (readsInitializer h) fun _ =>
      goesFinish rfl rfl (by simp)

theorem goesDeclaration (h : Agree b sub sub') (start : Nat) (items : List Slot) :
    Goes b 1 .begun none start (refs items) .begun (declarationStep sub items)
      (declarationStep sub' items) :=
  .next (readsVariable h) fun _ => .weaken (goesItem _ _) (.refl _)

theorem readsVariables (h : Agree b sub sub') (more : t.isEnd = false) :
    ReadsAt b 0 .moved t (variableDeclarations sub) (variableDeclarations sub') :=
  .begins (.see seesKind (.advance more (.pass seesHere.reads fun _ =>
    .first (.collect (goesDeclaration h)) fun _ => .build (goesRow _ _) fun _ =>
      goesMarked rfl rfl (by simp) (by split <;> decide))))

theorem readsVariableStatement (h : Agree b sub sub') (more : t.isEnd = false) :
    ReadsAt b 0 .moved t (variableStatement sub) (variableStatement sub') :=
  .plain (.firstAt (readsVariables h more) fun _ => .pass readsEndStatement fun _ => goesStretch)

theorem readsFunctionDeclaration (h : Agree b sub sub') :
    Reads b 1 .tried (functionDeclaration sub) (functionDeclaration sub') :=
  .begins fun _ => .passSuch readsFunctionMarks functionMarksReal fun _ real => .first readsName fun _ =>
    goesMethodRest h rfl rfl _ _ real

/-! ### Control flow -/

theorem readsCondition (h : Agree b sub sub') :
    Reads b 3 .tried (condition sub) (condition sub') :=
  .plain fun _ => .pass (readsExpect _) fun _ => .first (readsExpression h) fun _ =>
    .pass (readsExpect _) fun _ => .kept

theorem readsIf (h : Agree b sub sub') (there : t.kind = .word .ifWord) :
    ReadsAt b 0 .moved t (ifStatement sub) (ifStatement sub') :=
  .begins (.takes there (.first (readsCondition h) fun _ => .next h.statement fun _ => .accept
    (.next h.statement fun _ => goesFinish rfl rfl (by simp))
    (.next .absent fun _ => goesFinish rfl rfl (by simp))))

theorem readsWhile (h : Agree b sub sub') (there : t.kind = .word .whileWord) :
    ReadsAt b 0 .moved t (whileStatement sub) (whileStatement sub') :=
  .begins (.takes there (.first (readsCondition h) fun _ => .next h.statement fun _ =>
    goesFinish rfl rfl (by simp)))

/- The body is read before the condition but is stored behind it. -/
theorem readsDo (h : Agree b sub sub') (there : t.kind = .word .doWord) :
    ReadsAt b 0 .moved t (doStatement sub) (doStatement sub') := by
  refine .begins (.takes there (.first h.statement fun body => .pass (readsExpect _) fun _ =>
    .next (readsCondition h) fun test => .pass (readsAccept _) fun _ =>
    goesAdd (fun _ => ⟨agreesHolding rfl _ _, nofun⟩) (fun _ => rfl) (fun _ => rfl) (fun _ => ?_)
      (fun _ => ?_) (fun _ _ => rfl) (fun _ own => by cases own) fun _ => NodeFlags.realNone))
  · show present [body, test] = _
    simp
  · show (present [none, test, none, body]).Perm _
    simpa using List.perm_append_comm

theorem readsForInitializer (h : Agree b sub sub') :
    Reads b 3 .begun (forInitializer sub) (forInitializer sub') := by
  refine readsInForbidden _ (.plain fun t => .see seesKind ?_)
  split
  · exact .absent
  iterate 3 exact .endsAt (readsVariables h (moreThere ‹_›))
  · exact .ends (readsExpression h)

theorem readsExpressionUnless (h : Agree b sub sub') (k : TokenKind) :
    Reads b 3 .begun (expressionUnless sub k) (expressionUnless sub' k) :=
  .plain fun _ => .see (seesIsAt _) (.branch (fun _ => .absent) fun _ => .ends (readsExpression h))

/- The kind of loop that a word behind the initializer stands for. -/
def iterates (t : Token) : Option NodeKind :=
  if (t.kind == .identifier && t.value == "of") = true then some .forOfStatement
  else if (t.kind == .word .inWord) = true then some .forInStatement
  else none

theorem seesIteration : Sees iterationKind iterates := by
  intro s
  show (ite ((s.cursor.current.kind == .identifier && s.cursor.current.value == "of") = true)
    _ _ : Parse (Option NodeKind)) s = _
  unfold iterates
  split
  · rfl
  · show (ite ((s.cursor.current.kind == .word .inWord) = true) _ _ : Parse (Option NodeKind)) s = _
    split <;> rfl

theorem iteratesKind {k : NodeKind} (loops : iterates t = some k) :
    k = .forOfStatement ∧ t.kind = .identifier ∨ k = .forInStatement ∧ t.kind = .word .inWord := by
  unfold iterates at loops
  split at loops
  · rename_i ofWord
    cases loops
    exact .inl ⟨rfl, beq_iff_eq.mp (Bool.and_eq_true_iff.mp ofWord).1⟩
  · split at loops
    · rename_i inWord
      cases loops
      exact .inr ⟨rfl, beq_iff_eq.mp inWord⟩
    · cases loops

theorem readsFor (h : Agree b sub sub') (there : t.kind = .word .forWord) :
    ReadsAt b 0 .moved t (forStatement sub) (forStatement sub') := by
  refine .begins (.takes there (.pass (readsAccept _) fun _ => .pass (readsExpect _) fun _ =>
    .first (readsForInitializer h) fun _ => .know fun t => .see seesIteration ?_))
  cases loops : iterates t with
  | some kind =>
    rcases iteratesKind loops with ⟨rfl, word⟩ | ⟨rfl, word⟩
    iterate 2
      exact .advance (moreThere word) (.next h.assignment fun _ => .pass (readsExpect _) fun _ =>
        .next h.statement fun _ => goesFinish rfl rfl (by simp))
  | none =>
    exact .pass (readsExpect _) fun _ => .next (readsExpressionUnless h _) fun _ =>
      .pass (readsExpect _) fun _ => .next (readsExpressionUnless h _) fun _ =>
      .pass (readsExpect _) fun _ => .next h.statement fun _ => goesFinish rfl rfl (by simp)

theorem readsExit (h : Agree b sub sub') {kind : NodeKind} (form : kind.form? = some .exit)
    (plain : kind.isPlain = true) (more : t.isEnd = false) :
    ReadsAt b 0 .moved t (exitStatement sub kind) (exitStatement sub' kind) :=
  .begins (.advance more (.know fun _ => .see seesCanEnd (.fork
    (fun _ => (.weaken .absent : Reads b 3 .begun _ _)) (fun _ => .weaken (readsExpression h))
    fun s => .pass readsEndStatement fun _ => goesFinish form plain (by simp))))

theorem readsJump {kind : NodeKind} (form : kind.form? = some .jump) (plain : kind.isPlain = true)
    (more : t.isEnd = false) :
    ReadsAt b 0 .moved t (jumpStatement kind) (jumpStatement kind) :=
  .begins (.advance more (.pass (seesIsAt _).reads fun _ => .pass seesAfterLineBreak.reads fun _ =>
    .fork (fun _ => .weaken readsName) (fun _ => .absent) fun s => .pass readsEndStatement fun _ =>
      goesFinish form plain (by simp)))

theorem readsCatch (h : Agree b sub sub') :
    Reads b 0 .begun (catchClause sub) (catchClause sub') := by
  refine .begins fun t => .accept ?_ .absent
  have rest (binding : Slot) : Goes b 0 .moved none t.start (refs binding) .begun
      (do
        let body ← sub .block
        finish .catchClause t.start (.handler ⟨binding, body⟩))
      (do
        let body ← sub' .block
        finish .catchClause t.start (.handler ⟨binding, body⟩)) :=
    .next h.block fun _ => goesFinish rfl rfl (by simp)
  exact .accept
    (.first (readsVariable h) fun _ => .pass (readsExpect _) fun _ => .build .kept rest)
    (.first .absent rest)

theorem readsTry (h : Agree b sub sub') (there : t.kind = .word .tryWord) :
    ReadsAt b 0 .moved t (tryStatement sub) (tryStatement sub') := by
  refine .begins (.takes there (.first h.block fun body => .next (readsCatch h) fun handler => ?_))
  have rest (finalizer : Slot) : Goes b 0 .moved none t.start
      (refs body ++ refs handler ++ refs finalizer) .moved
      (do
        if handler.isNone && finalizer.isNone then expect (.word .catchWord)
        finish .tryStatement t.start (.attempt ⟨body, handler, finalizer⟩))
      (do
        if handler.isNone && finalizer.isNone then expect (.word .catchWord)
        finish .tryStatement t.start (.attempt ⟨body, handler, finalizer⟩)) :=
    .perhaps (readsExpect _) (goesFinish rfl rfl (by simp))
  exact .accept (.next h.block rest) (.next .absent rest)

/-! ### Classes -/

theorem peeksConstructor : Peeks b t (fun x => x = true → t.kind = .identifier) startsConstructor := by
  have kind (word : (t.kind == .identifier && t.value == "constructor") = true) : t.kind = .identifier :=
    beq_iff_eq.mp (Bool.and_eq_true_iff.mp word).1
  exact .see (seesContextual _) (.branch
    (fun word => .look (a := .begun) .constructor
      (.plain (.advance (moreThere (kind word)) (.ends (seesIsAt _).reads))) fun _ _ _ => kind word)
    fun _ => .pure (by rintro ⟨⟩))

theorem readsClassMember (h : Agree b sub sub') :
    Reads b 1 .begun (classMember sub) (classMember sub') := by
  refine .begins fun _ => .passSuch (readsMarks _) (marksReal _) fun _ real => .know fun _ =>
    .peek peeksConstructor fun _ word => .branch
      (fun yes => .advance (moreThere (word yes))
        (.weaken (.enough (goesMethodRest h rfl rfl _ none real)) (.refl _)))
      fun _ => .see seesKind (.branch (fun _ => .first (readsPropertyName h) fun _ =>
        .pass (readsAccept _) fun _ => .pass (readsAccept _) fun _ => .pass seesStartsMethod.reads
          fun _ => .branch (fun _ => .enough (goesMethodRest h rfl rfl _ _ real)) fun _ => ?_)
        fun _ => .absent)
  exact .next readsOptionalType fun _ => .next (readsInitializer h) fun _ =>
    .pass readsEndStatement fun _ => .enough (goesMarked rfl rfl (by simp) real)

theorem goesMember (h : Agree b sub sub') (start : Nat) (members : List Slot) :
    Goes b 1 .begun none start (refs members) .begun (memberStep sub members)
      (memberStep sub' members) := by
  refine .know fun t => .see seesKind (.branch (fun _ => .finished) fun other => .accept .yielded
    (.see seesHere (.either (readsClassMember h) (fun m u behind => ?_) fun m => ?_)))
  · have held (members : List Slot) : Goes b 1 .moved (some u) start (refs members) .begun
        (do
          if (← here) == t.start then
            reportHere .unexpectedToken
            advance
          return .yield members : Parse (ForInStep (List Slot)))
        (do
          if (← here) == t.start then
            reportHere .unexpectedToken
            advance
          return .yield members) :=
      .see seesHere (.branch (fun same => absurd (beq_iff_eq.mp same) (Nat.ne_of_gt behind))
        fun _ => .yielded)
    cases m with
    | none => exact .weaken (held members) (by simp)
    | some i => exact .weaken (held (some i :: members)) (by simp)
  · have more : t.isEnd = false := beq_eq_false_iff_ne.mpr fun ends => other (by rw [ends]; rfl)
    have held (members : List Slot) : Goes b 1 .begun (some t) start (refs members) .begun
        (do
          if (← here) == t.start then
            reportHere .unexpectedToken
            advance
          return .yield members : Parse (ForInStep (List Slot)))
        (do
          if (← here) == t.start then
            reportHere .unexpectedToken
            advance
          return .yield members) :=
      .see seesHere (.branch (fun _ => .report (.advance more .yielded)) fun _ => .yielded)
    cases m with
    | none => exact .weaken (held members) (by simp)
    | some i => exact .weaken (held (some i :: members)) (by simp)

theorem readsClassMembers (h : Agree b sub sub') :
    Reads b 1 .begun (classMembers sub) (classMembers sub') :=
  .begins fun _ => .first (.collect (goesMember h)) fun _ => goesRow _ _

theorem readsInterfaceStep (x : Unit) : Reads b 0 .begun (interfaceStep x) (interfaceStep x) :=
  .plain fun _ => .first readsTypeReference fun _ => .drop (.accept .done .done) (List.nil_sublist _)

/- The nodes of the interfaces stay without a parent. -/
theorem readsInterfaces : Reads b 0 .begun skipInterfaces skipInterfaces :=
  .plain fun _ => .see (seesContextual _) (.branch
    (fun word => .advance (moreThere (beq_iff_eq.mp (Bool.and_eq_true_iff.mp word).1))
      (.ends (.still readsInterfaceStep)))
    fun _ => .done)

theorem readsClass (h : Agree b sub sub') (there : t.kind = .word .classWord) :
    ReadsAt b 0 .moved t (classDeclaration sub) (classDeclaration sub') := by
  refine .begins (.takes there (.pass (seesIsAt _).reads fun _ => .pass (seesContextual _).reads
    fun _ => .fork (fun _ => .weaken readsName) (fun _ => .absent) fun name => ?_))
  have rest (heritage : Slot) : Goes b 0 .moved none t.start (refs name ++ refs heritage) .moved
      (do
        skipInterfaces
        expect (.punct .openBrace)
        let members ← classMembers sub
        expect (.punct .closeBrace)
        finish .classDeclaration t.start (.classBody ⟨name, heritage, members⟩))
      (do
        skipInterfaces
        expect (.punct .openBrace)
        let members ← classMembers sub'
        expect (.punct .closeBrace)
        finish .classDeclaration t.start (.classBody ⟨name, heritage, members⟩)) :=
    .pass readsInterfaces fun _ => .pass (readsExpect _) fun _ => .next (readsClassMembers h) fun _ =>
      .pass (readsExpect _) fun _ => goesFinish rfl rfl (by simp)
  exact .pass readsDropTypeArguments fun _ => .accept
    (.next (readsLeftHandSide h) fun _ => .pass readsDropTypeArguments fun _ => rest _)
    (.next .absent rest)

/-! ### All productions -/

theorem readsStatement (h : Agree b sub sub') :
    Reads b 3 .tried (statement sub) (statement sub') := by
  refine readsNested (.plain fun _ => .report .absent) (.plain fun t => .see seesKind ?_)
  split
  · exact .endsAt (h.blockAt ‹_›)
  · exact .endsAt (readsEmptyStatement ‹_›)
  iterate 3 exact .endsAt (readsVariableStatement h (moreThere ‹_›))
  · exact .ends (readsFunctionDeclaration h)
  · exact .peek peeksAsync fun _ _ => .branch (fun _ => .ends (readsFunctionDeclaration h))
      fun _ => .ends (readsExpressionStatement h)
  · exact .endsAt (readsClass h ‹_›)
  · exact .endsAt (readsIf h ‹_›)
  · exact .endsAt (readsWhile h ‹_›)
  · exact .endsAt (readsDo h ‹_›)
  · exact .endsAt (readsFor h ‹_›)
  iterate 2
    exact .endsAt (readsExit h rfl rfl (moreThere ‹_›))
  iterate 2
    exact .endsAt (readsJump rfl rfl (moreThere ‹_›))
  · exact .endsAt (readsTry h ‹_›)
  · exact .ends (readsExpressionStatement h)

end Statements

/- One more production leaves room for one more level. -/
theorem ReadsAt.deeper {c r : Nat} {a : Progress} {t : Token} {p p' : Parse Slot}
    (h : ReadsAt (some c) r a t p p') : ReadsAt (some (c + 1)) (r + 1) a t p p' := by
  intro s there ordered fits
  have fits' : Affords (some c) r s := by
    rintro c ⟨⟩
    exact Nat.le_of_succ_le_succ (fits (c + 1) rfl)
  obtain ⟨same, _, _, trace⟩ := h s there ordered fits'
  exact ⟨same, ordered, fits, trace⟩

theorem Reads.deeper {c r : Nat} {a : Progress} {p p' : Parse Slot} (h : Reads (some c) r a p p') :
    Reads (some (c + 1)) (r + 1) a p p' :=
  .at fun _ => .deeper (.anywhere h)

theorem agreeRule {c : Nat} {sub sub' : SubParse} (h : Agree (some c) sub sub') :
    Agree (some (c + 1)) (rule sub) (rule sub') where
  statement := (readsStatement h).deeper
  block := (readsBlock h).deeper
  blockAt there := (readsBlockAt h there).deeper
  assignment := (readsAssignment h).deeper
  binary above := (readsBinary h above).deeper
  unary := (readsUnary h).deeper
  newExpression there := (readsNewExpression h there).deeper
  arrayLiteral there := (readsArrayLiteral h there).deeper
  objectLiteral there := (readsObjectLiteral h there).deeper

theorem agreeLaxRule {sub sub' : SubParse} (h : Agree none sub sub') :
    Agree none (rule sub) (rule sub') where
  statement := .weaken (readsStatement h)
  block := .weaken (readsBlock h)
  blockAt there := .weaken (readsBlockAt h there)
  assignment := .weaken (readsAssignment h)
  binary above := .weaken (readsBinary h above)
  unary := .weaken (readsUnary h)
  newExpression there := .weaken (readsNewExpression h there)
  arrayLiteral there := .weaken (readsArrayLiteral h there)
  objectLiteral there := .weaken (readsObjectLiteral h there)

/- Any number of productions inside one another leaves a trace. -/
theorem productionAgrees (fuel : Nat) : Agree none (production fuel) (production fuel) := by
  induction fuel with
  | zero =>
    have nothing {r : Nat} : Reads none r .tried (pure none : Parse Slot) (pure none) :=
      fun s ordered fits => ⟨rfl, ordered, fits, [], [], .rest s, by rintro ⟨⟩⟩
    exact ⟨nothing, nothing, fun _ => .anywhere nothing, nothing, fun _ => nothing, nothing,
      fun _ => .anywhere nothing, fun _ => .anywhere nothing, fun _ => .anywhere nothing⟩
  | succ fuel ih => exact agreeLaxRule ih

/- The rules inside one another so many times, with other readers below them. -/
def unrolled (deepest : SubParse) : Nat → SubParse
  | 0 => deepest
  | fuel + 1 => rule (unrolled deepest fuel)

theorem productionUnrolled (fuel : Nat) : production fuel = unrolled (fun _ => pure none) fuel := by
  induction fuel with
  | zero => rfl
  | succ fuel ih => exact congrArg rule ih

/- Where the tokens left are few enough, what is below the rules is never reached. -/
theorem unrolledAgrees (deepest deepest' : SubParse) {fuel more : Nat} (enough : fuel ≤ more) :
    Agree (some fuel) (unrolled deepest fuel) (unrolled deepest' more) := by
  induction fuel generalizing more with
  | zero =>
    have never {r : Nat} {p p' : Parse Slot} : Reads (some 0) (r + 1) .tried p p' :=
      fun _ _ fits => absurd (Nat.le_trans (Nat.le_add_left _ _) (fits 0 rfl)) (Nat.not_succ_le_zero r)
    exact ⟨never, never, fun _ => .anywhere never, never, fun _ => never, never,
      fun _ => .anywhere never, fun _ => .anywhere never, fun _ => .anywhere never⟩
  | succ fuel ih =>
    obtain ⟨more, rfl⟩ := Nat.exists_eq_add_of_lt enough
    exact agreeRule (ih (Nat.le_add_right fuel more))

/-! ### What a run makes -/

/- The answers of a run are loose nodes of its tree. -/
theorem runBuilt {s s' : ParseState} {ids kept : List NodeId} (run : Run s ids s')
    (built : Tree.Built s.tree kept) : Tree.Built s'.tree (ids ++ kept) := by
  induction run generalizing kept with
  | rest => exact built
  | @chain _ _ _ ids more _ _ one two =>
    refine .forget (List.Perm.subperm ?_) (two (one built))
    rw [← List.append_assoc]
    exact (List.perm_append_comm).append_right kept
  | forget part _ ih => exact .forget (part.append_right kept).subperm (ih built)
  | advance => exact built
  | report => exact built
  | look _ ih => exact .forget (List.sublist_append_right _ kept).subperm (ih built)
  | nest _ _ ih => exact ih built
  | within _ _ ih => exact ih built
  | node _ inner root _ _ links _ ih =>
    exact .add inner.agrees root (.forget (links.append_right kept).subperm (ih built))
  | flags => exact .flags _ _ built
  | stop => exact .stop _ _ built

end Parse

namespace Program

/- All tokens of a text, the end token last. -/
def tokensOf (text : List Char) : List Token := (Scan.ofText text).map (·.token)

theorem tokensRow (text : List Char) : Token.Row 0 (tokensOf text) := Scan.allRow 0 text

theorem initialOrdered (text : List Char) : (initialState (tokensOf text)).cursor.Ordered := by
  have row := tokensRow text
  generalize tokensOf text = tokens at row
  cases tokens with
  | nil => cases row
  | cons t ts => exact ⟨row, fun some => absurd rfl some⟩

theorem initialTree (tokens : List Token) : (initialState tokens).tree = .empty := by
  cases tokens <;> rfl

/- The state behind the last statement, and the statements of the whole file. -/
theorem statementsRun (text : List Char) :
    Parse.Run (initialState (tokensOf text)) (Parse.present (statements (tokensOf text)).1.items)
      (statements (tokensOf text)).2 :=
  (Parse.readsStatementList (Parse.productionAgrees _) true).run (initialOrdered text)

theorem treeBuilt (fileName : String) (text : List Char) :
    let p := parse fileName text
    Tree.Built p.tree [p.root] := by
  have start : Tree.Built (initialState (tokensOf text)).tree [] := initialTree _ ▸ .empty
  exact .add (Parse.agreesHolding rfl _ _) rfl (Parse.runBuilt (statementsRun text) start)

theorem treeForest (fileName : String) (text : List Char) :
    (parse fileName text).tree.Forest :=
  (Tree.builtForest (treeBuilt fileName text)).1

/- The tree keeps the text that it was read from. -/
theorem treeText (fileName : String) (text : List Char) :
    (parse fileName text).tree.text? = some text := by
  have none : (statements (tokensOf text)).2.tree.text? = none := by
    rw [Parse.runText (statementsRun text), initialTree]
    rfl
  show some ((statements (tokensOf text)).2.tree.text?.getD text) = some text
  rw [none, Option.getD_none]

end Program
end CallGuard
