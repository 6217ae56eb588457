import CallGuard.Proofs.Parser.Spread

/-! No two calls of a program stand at the same place. Every rule of the grammar keeps the calls that
it adds apart from each other and from those that were there, if its parts do. -/
namespace CallGuard.Parse

/- The parts of a construct keep their calls apart. A construction is only read where one begins. -/
structure Spreading (sub : SubParse) : Prop where
  statement : ∀ {known lo}, Spreads known lo (sub .statement)
  block : ∀ {known lo}, Spreads known lo (sub .block)
  assignment : ∀ {known lo}, Spreads known lo (sub .assignment)
  binary : ∀ {known lo} above, Spreads known lo (sub (.binary above))
  unary : ∀ {known lo}, Spreads known lo (sub .unary)
  newExpression : ∀ {t lo}, t.kind = .word .newWord → Spreads (some t) lo (sub .newExpression)
  arrayLiteral : ∀ {known lo}, Spreads known lo (sub .arrayLiteral)
  objectLiteral : ∀ {known lo}, Spreads known lo (sub .objectLiteral)

section
variable {known : Option Token} {lo : Nat}

/-! ### Tokens and types -/

theorem spreadsEndStatement : Spreads known lo endStatement :=
  .bind (.accept _) fun _ => .branch (fun _ => .pure _) fun _ => .bind .canEnd fun _ =>
    .branch (fun _ => .pure _) fun _ => .expect _

theorem spreadsMissing : Spreads known lo missing := .here fun _ => .node rfl

theorem spreadsAnyName : Spreads known lo anyName :=
  .bind .token fun _ => .branch (fun _ => .bind .advance fun _ => .node rfl) fun _ =>
    .bind (.report _) fun _ => spreadsMissing

theorem spreadsName : Spreads known lo name :=
  .bind (.isAt _) fun _ => .branch (fun _ => spreadsAnyName) fun _ =>
    .bind (.report _) fun _ => spreadsMissing

theorem spreadsBareToken : Spreads known lo bareToken :=
  .bind .token fun _ => .bind .advance fun _ => .node rfl

theorem spreadsLiteral : Spreads known lo literal :=
  .bind .token fun _ => .bind .advance fun _ => .node rfl

theorem spreadsTypeReference : Spreads known lo typeReference :=
  .quiet strollsTypeReference readsTypeReference

theorem spreadsOptionalType : Spreads known lo optionalType :=
  .quiet strollsOptionalType readsOptionalType

theorem spreadsDropTypes : Spreads known lo dropTypeArguments :=
  .quiet (.bind (.isAt _) fun _ => .branch (.bind strollsSkipTypes fun _ => .pure _) (.pure _))
    readsDropTypeArguments

/- The comma that leads on to the next item of a row. -/
theorem spreadsNext {x y : List Slot} : Spreads known lo
    (do if ← accept (.punct .comma) then return .yield x
        else return .done y : Parse (ForInStep (List Slot))) :=
  .bind (.accept _) fun _ => .branch (fun _ => .pure _) fun _ => .pure _

/- The same where an item that took no token is the last one. -/
theorem spreadsItem {x y : List Slot} (start : Nat) : Spreads known lo
    (do
      if (← accept (.punct .comma)) && (← here) != start then return .yield x
      else return .done y : Parse (ForInStep (List Slot))) :=
  .bind (.accept _) fun _ => .here fun _ => .branch (fun _ => .pure _) fun _ => .pure _

theorem spreadsTypeRow (types : List Slot) : Spreads known lo (typeRowStep types) :=
  .bind .kind fun _ => .branch (fun _ => .pure _) fun _ => .here fun _ =>
    .bind spreadsTypeReference fun _ => spreadsItem _

theorem opensTypeArguments {t : Token} (there : t.kind = .punct .less) : Opens t lo typeArguments :=
  .here (.next (.expect there) fun _ => .bind (.loop spreadsTypeRow _) fun _ => .bind (.expect _) fun _ =>
    .row _ _)

theorem spreadsTypeArguments : Spreads known lo typeArguments :=
  .here fun _ => .bind (.expect _) fun _ => .bind (.loop spreadsTypeRow _) fun _ =>
    .bind (.expect _) fun _ => .row _ _

end

/-! ### Expressions -/

section
variable {known : Option Token} {t : Token} {lo : Nat} {sub : SubParse} (h : Spreading sub)
include h

theorem spreadsComma (start : Nat) (left : Slot) : Spreads known lo (commaStep sub start left) :=
  .bind (.accept _) fun _ => .branch
    (fun _ => .bind h.assignment fun _ => .bind (.finish rfl _ _) fun _ => .pure _) fun _ => .pure _

theorem spreadsExpression : Spreads known lo (expression sub) :=
  .here fun _ => .bind h.assignment fun _ => .loop (spreadsComma h _) _

theorem spreadsBinaryStep (above start : Nat) (left : Slot) :
    Spreads known lo (binaryStep sub above start left) :=
  .bind .kind fun _ => .bind (.still fun _ => rfl) fun _ => .branch (fun _ => .pure _) fun _ =>
    .bind .advance fun _ => .bind (h.binary _) fun _ => .bind (.finish rfl _ _) fun _ => .pure _

theorem spreadsBinary (above : Nat) : Spreads known lo (binaryExpression sub above) :=
  .here fun _ => .bind h.unary fun _ => .loop (spreadsBinaryStep h _ _) _

theorem spreadsAssignmentRest (start : Nat) (left : Slot) :
    Spreads known lo (assignmentRest sub start left) :=
  .bind .kind fun _ => .branch
    (fun _ => .bind .advance fun _ => .bind h.assignment fun _ => .finish rfl _ _)
    fun _ => .branch
      (fun _ => .bind .advance fun _ => .bind (.within _ h.assignment) fun _ => .bind (.expect _) fun _ =>
        .bind h.assignment fun _ => .finish rfl _ _)
      fun _ => .pure _

theorem spreadsYieldOperand : Spreads known lo (yieldOperand sub) :=
  .bind .afterLineBreak fun _ => .branch (fun _ => .pure _) fun _ => .bind (.accept _) fun _ =>
    .branch (fun _ => h.assignment) fun _ => .bind .kind fun _ =>
      .branch (fun _ => h.assignment) fun _ => .pure _

theorem spreadsYield : Spreads known lo (yieldExpression sub) :=
  .here fun _ => .bind .advance fun _ => .bind (spreadsYieldOperand h) fun _ => .finish rfl _ _

theorem spreadsSpreadElement : Spreads known lo (spreadElement sub) :=
  .here fun _ => .bind (.expect _) fun _ => .bind h.assignment fun _ => .finish rfl _ _

/-! ### Accesses and calls -/

theorem spreadsArgument (args : List Slot) : Spreads known lo (argumentStep sub args) :=
  .bind .kind fun _ => .branch (fun _ => .pure _) fun _ => .branch
    (fun _ => .bind (spreadsSpreadElement h) fun _ => spreadsNext)
    fun _ => .bind h.assignment fun _ => spreadsNext

theorem spreadsArgumentRow (start : Nat) : Spreads known lo
    (do
      let args ← withInForbidden false <| loop (argumentStep sub) []
      expect (.punct .closeParen)
      listFrom start args.reverse) :=
  .bind (.within _ (.loop (spreadsArgument h) _)) fun _ => .bind (.expect _) fun _ => .row _ _

theorem spreadsArguments : Spreads known lo (arguments sub) :=
  .here fun _ => .bind (.expect _) fun _ => spreadsArgumentRow h _

theorem opensArguments (there : t.kind = .punct .openParen) : Opens t lo (arguments sub) :=
  .here (.next (.expect there) fun _ => spreadsArgumentRow h _)

theorem spreadsCall (opens : t.kind = .punct .openParen ∨ t.kind = .punct .less) (callee : Slot) :
    Spreads (some t) lo (callRest sub lo callee) := by
  have bare (there : t.kind = .punct .openParen) : Spreads (some t) lo
      (arguments sub >>= fun args => finish .callExpression lo (.call ⟨callee, none, some args⟩)) :=
    .call (opensArguments h there) fun _ => .finish _ _
  have generic (there : t.kind = .punct .less) : Spreads (some t) lo
      (typeArguments >>= fun types => arguments sub >>= fun args =>
        finish .callExpression lo (.call ⟨callee, some types, some args⟩)) :=
    .call (opensTypeArguments there) fun _ => .next (spreadsArguments h) fun _ => .finish _ _
  refine .see (seesIsAt _) (.branch (fun less => generic (beq_iff_eq.mp less)) fun other => ?_)
  rcases opens with there | there
  · exact bare there
  · exact absurd (beq_iff_eq.mpr there) other

omit h in
theorem spreadsFinishAccess {kind : NodeKind} (plain : kind.isCall = false) (start : Nat) (a : Access) :
    Spreads known lo (finishAccess kind start a) :=
  .bind (.still fun _ => rfl) fun _ => .node plain

omit h in
theorem spreadsProperty (start : Nat) (object : Slot) (optional : Bool) :
    Spreads known lo (propertyRest start object optional) :=
  .bind spreadsAnyName fun _ => spreadsFinishAccess rfl _ _

theorem spreadsElement (start : Nat) (object : Slot) (optional : Bool) :
    Spreads known lo (elementRest sub start object optional) :=
  .bind (.expect _) fun _ => .bind (.within _ (spreadsExpression h)) fun _ => .bind (.expect _) fun _ =>
    spreadsFinishAccess rfl _ _

theorem spreadsOptional (object : Slot) : Spreads known lo (optionalRest sub lo object) := by
  have call {t : Token} (opens : t.kind = .punct .openParen ∨ t.kind = .punct .less) :
      Spreads (some t) lo
        (do
          let call ← callRest sub lo object
          addFlags call .optionalChain
          return call) :=
    .bind (spreadsCall h opens _) fun _ => .bind (.flags _ _) fun _ => .pure _
  refine .know fun t => .see seesKind ?_
  split
  · exact call (.inl ‹_›)
  · exact call (.inr ‹_›)
  · exact spreadsElement h _ _ _
  · exact spreadsProperty _ _ _

theorem spreadsChainStep (object : Slot) : Spreads known lo (chainStep sub lo object) := by
  refine .know fun t => .see seesKind ?_
  split
  · exact .bind .advance fun _ => .bind (spreadsProperty _ _ _) fun _ => .pure _
  · exact .bind .advance fun _ => .bind (spreadsOptional h _) fun _ => .pure _
  · exact .bind (spreadsElement h _ _ _) fun _ => .pure _
  · exact .bind (spreadsCall h (.inl ‹_›) _) fun _ => .pure _
  · exact .ahead (LookAhead.strolls .genericCall) fun _ => .branch
      (fun _ => .bind (spreadsCall h (.inr ‹_›) _) fun _ => .pure _) fun _ => .pure _
  · exact .bind .afterLineBreak fun _ => .branch (fun _ => .pure _) fun _ => .bind .advance fun _ =>
      .bind (.finish rfl _ _) fun _ => .pure _
  · exact .pure _

theorem spreadsChain (first : Slot) : Spreads known lo (callChain sub lo first) :=
  .loop (spreadsChainStep h) _

/-! ### Functions -/

theorem spreadsBindingName : Spreads known lo (bindingName sub) := by
  refine .bind .kind fun _ => ?_
  split
  · exact h.arrayLiteral
  · exact h.objectLiteral
  · exact spreadsBareToken
  · exact spreadsName

theorem spreadsInitializer : Spreads known lo (initializer sub) :=
  .bind (.accept _) fun _ => .branch (fun _ => h.assignment) fun _ => .pure _

omit h in
theorem spreadsModifier (x : Unit) : Spreads known lo (modifierStep x) :=
  .bind .token fun _ => .branch
    (fun _ => .bind (.look (LookAhead.strolls .parameterModifier)) fun _ => .branch
      (fun _ => .bind .advance fun _ => .pure _) fun _ => .pure _)
    fun _ => .pure _

theorem spreadsParameter : Spreads known lo (parameter sub) :=
  .here fun _ => .bind (.loop spreadsModifier _) fun _ => .bind (.accept _) fun _ =>
    .bind (spreadsBindingName h) fun _ => .bind (.accept _) fun _ => .bind spreadsOptionalType fun _ =>
    .bind (spreadsInitializer h) fun _ => .finish rfl _ _

theorem spreadsParameterStep (params : List Slot) : Spreads known lo (parameterStep sub params) :=
  .bind .kind fun _ => .branch (fun _ => .pure _) fun _ => .here fun _ =>
    .bind (spreadsParameter h) fun _ => spreadsItem _

theorem spreadsParameters : Spreads known lo (parameters sub) :=
  .here fun _ => .bind (.expect _) fun _ => .bind (.loop (spreadsParameterStep h) _) fun _ =>
    .bind (.expect _) fun _ => .row _ _

omit h in
theorem spreadsMarked {kind : NodeKind} (plain : kind.isCall = false) (start : Nat) (x : Payload)
    (flags : NodeFlags) : Spreads known lo (do
      let node ← finish kind start x
      addFlags node flags
      return node) :=
  .bind (.finish plain _ _) fun _ => .bind (.flags _ _) fun _ => .pure _

theorem spreadsMethod {kind : NodeKind} (plain : kind.isCall = false) (start : Nat) (name : Slot)
    (flags : NodeFlags) : Spreads known lo (methodRest sub kind start name flags) :=
  .bind spreadsDropTypes fun _ => .bind (spreadsParameters h) fun _ => .bind spreadsOptionalType fun _ =>
    .bind (.isAt _) fun _ => .branch (fun _ => .bind h.block fun _ => spreadsMarked plain _ _ _)
      fun _ => .bind spreadsEndStatement fun _ => spreadsMarked plain _ _ _

omit h in
theorem spreadsFunctionMarks : Spreads known lo functionMarks := by
  have rest (async : Bool) : Spreads none lo (do
      expect (.word .functionWord)
      let star ← accept (.punct .asterisk)
      return (if async then NodeFlags.asyncFlag else 0) ||| (if star then NodeFlags.generator else 0)) :=
    .bind (.expect _) fun _ => .bind (.accept _) fun _ => .pure _
  exact .bind (.contextual _) fun _ => .branch (fun _ => .bind .advance fun _ => rest _) fun _ => rest _

theorem spreadsFunction : Spreads known lo (functionExpression sub) :=
  .here fun _ => .bind spreadsFunctionMarks fun _ => .bind (.isAt _) fun _ => .branch
    (fun _ => .bind spreadsName fun _ => spreadsMethod h rfl _ _ _) fun _ => spreadsMethod h rfl _ _ _

omit h in
theorem spreadsStartsAsync : Spreads known lo startsAsyncFunction :=
  .bind (.contextual _) fun _ => .branch (fun _ => .look (LookAhead.strolls .asyncFunction))
    fun _ => .pure _

omit h in
theorem spreadsBareParameter : Spreads known lo bareParameter :=
  .here fun _ => .bind spreadsName fun _ => .bind (.finish rfl _ _) fun _ => .row _ _

theorem spreadsArrowParameters : Spreads known lo (arrowParameters sub) :=
  .bind (.isAt _) fun _ => .branch (fun _ => spreadsBareParameter) fun _ =>
    .bind spreadsDropTypes fun _ => spreadsParameters h

theorem spreadsArrowRest (start : Nat) (async : Bool) (params : NodeList) :
    Spreads known lo (arrowRest sub start async params) :=
  .bind spreadsOptionalType fun _ => .bind (.expect _) fun _ => .bind (.isAt _) fun _ => .branch
    (fun _ => .bind h.block fun _ => spreadsMarked rfl _ _ _)
    fun _ => .bind h.assignment fun _ => spreadsMarked rfl _ _ _

theorem spreadsArrow : Spreads known lo (arrowFunction sub) := by
  have rest {lo : Nat} (async : Bool) : Spreads none lo
      (arrowParameters sub >>= fun params => arrowRest sub lo async params) :=
    .bind (spreadsArrowParameters h) fun _ => spreadsArrowRest h _ _ _
  exact .anywhere (.here fun _ => .bind (.contextual _) fun _ => .branch
    (fun _ => .bind (.look (LookAhead.strolls .asyncArrow)) fun _ => .branch
      (fun _ => .bind .advance fun _ => rest _) fun _ => rest _)
    fun _ => rest false)

/-! ### Literals -/

theorem spreadsElementStep (items : List Slot) : Spreads known lo (elementStep sub items) := by
  refine .bind .kind fun _ => ?_
  split
  · exact .pure _
  · exact .pure _
  · exact .here fun _ => .bind (.node rfl) fun _ => .bind .advance fun _ => .pure _
  · exact .branch (fun _ => .bind (spreadsSpreadElement h) fun _ => spreadsNext)
      fun _ => .bind h.assignment fun _ => spreadsNext

theorem spreadsArrayLiteral : Spreads known lo (arrayLiteral sub) :=
  .here fun _ => .bind (.expect _) fun _ => .here fun _ => .bind (.loop (spreadsElementStep h) _) fun _ =>
    .bind (.row _ _) fun _ => .bind (.expect _) fun _ => .finish rfl _ _

omit h in
theorem spreadsModifies (modifiers : List String) : Spreads known lo (modifiesMember modifiers) :=
  .bind .token fun _ => .branch (fun _ => .look (LookAhead.strolls .memberModifier)) fun _ => .pure _

theorem spreadsPropertyName : Spreads known lo (propertyName sub) := by
  refine .bind .kind fun _ => ?_
  split
  · exact spreadsLiteral
  · exact spreadsLiteral
  · exact .here fun _ => .bind .advance fun _ => .bind h.assignment fun _ => .bind (.expect _) fun _ =>
      .finish rfl _ _
  · exact spreadsAnyName

omit h in
theorem spreadsMark (modifiers : List String) (flags : NodeFlags) :
    Spreads known lo (markStep modifiers flags) :=
  .bind (spreadsModifies _) fun _ => .branch
    (fun _ => .bind .token fun _ => .bind .advance fun _ => .pure _) fun _ => .pure _

omit h in
theorem spreadsMarks (modifiers : List String) : Spreads known lo (memberMarks modifiers) :=
  .bind (.loop (spreadsMark _) _) fun _ => .bind (.accept _) fun _ =>
    .branch (fun _ => .pure _) fun _ => .pure _

omit h in
theorem spreadsStartsMethod : Spreads known lo startsMethod := .still fun _ => rfl

theorem spreadsObjectMember : Spreads known lo (objectMember sub) :=
  .here fun _ => .bind (.isAt _) fun _ => .branch (fun _ => spreadsSpreadElement h) fun _ =>
    .bind (spreadsMarks _) fun _ => .bind (spreadsPropertyName h) fun _ => .bind spreadsStartsMethod fun _ =>
    .branch (fun _ => spreadsMethod h rfl _ _ _) fun _ => .bind (.accept _) fun _ => .branch
      (fun _ => .bind h.assignment fun _ => .finish rfl _ _)
      fun _ => .bind (spreadsInitializer h) fun _ => .finish rfl _ _

theorem spreadsObjectStep (items : List Slot) : Spreads known lo (objectStep sub items) :=
  .bind .kind fun _ => .branch (fun _ => .pure _) fun _ => .here fun _ =>
    .bind (spreadsObjectMember h) fun _ => spreadsItem _

theorem spreadsObjectLiteral : Spreads known lo (objectLiteral sub) :=
  .here fun _ => .bind (.expect _) fun _ => .here fun _ => .bind (.loop (spreadsObjectStep h) _) fun _ =>
    .bind (.row _ _) fun _ => .bind (.expect _) fun _ => .finish rfl _ _

theorem spreadsParenthesized : Spreads known lo (parenthesized sub) :=
  .here fun _ => .bind (.expect _) fun _ => .bind (.within _ (spreadsExpression h)) fun _ =>
    .bind (.expect _) fun _ => .finish rfl _ _

theorem spreadsPrimary : Spreads known lo (primary sub) := by
  refine .bind .kind fun _ => ?_
  split
  · exact .bind spreadsStartsAsync fun _ => .branch (fun _ => spreadsFunction h) fun _ => spreadsName
  iterate 5 exact spreadsBareToken
  iterate 3 exact spreadsLiteral
  · exact spreadsParenthesized h
  · exact spreadsArrayLiteral h
  · exact spreadsObjectLiteral h
  · exact spreadsFunction h
  · exact .bind (.report _) fun _ => spreadsMissing

/-! ### Operators before and after -/

theorem spreadsConstructorStep (start : Nat) (object : Slot) :
    Spreads known lo (constructorStep sub start object) := by
  refine .bind .kind fun _ => ?_
  split
  · exact .bind .advance fun _ => .bind (spreadsProperty _ _ _) fun _ => .pure _
  · exact .bind (spreadsElement h _ _ _) fun _ => .pure _
  · exact .pure _

theorem spreadsConstructorHead : Spreads known lo (constructorHead sub) :=
  .know fun _ => .see (seesIsAt _) (.branch (fun new => h.newExpression (beq_iff_eq.mp new))
    fun _ => spreadsPrimary h)

theorem closesConstructor (start : Nat) (callee : Slot) : Closes start (constructorRest sub start callee) := by
  have last (typeArgs : Option NodeList) : Closes start
      (do
        let args ← if ← isAt (.punct .openParen) then some <$> arguments sub else pure none
        finish .newExpression start (.call ⟨callee, typeArgs, args⟩)) :=
    .next (.isAt _) fun _ => .branch (.next (spreadsArguments h) fun _ => .finish _ _) (.finish _ _)
  exact .next (.isAt _) fun _ => .branch
    (.next (.look strollsSkipTypes) fun _ => .branch (.next spreadsTypeArguments fun _ => last _) (last _))
    (last _)

/- The word `new` opens a construction. -/
theorem spreadsNew (there : t.kind = .word .newWord) : Spreads (some t) lo (newExpression sub) :=
  .here fun _ => .call (.expect there) fun _ => .next .enter fun _ => .branch
    (.next (.still fun _ => rfl) fun _ => .next (spreadsConstructorHead h) fun _ => .next .leave fun _ =>
      .next (.loop (spreadsConstructorStep h _) _) fun _ => closesConstructor h _ _)
    (.ends spreadsMissing)

theorem spreadsLeftHandSide : Spreads known lo (leftHandSide sub) :=
  .know fun _ => .here fun _ => .see (seesIsAt _) (.branch
    (fun new => .bind (spreadsNew h (beq_iff_eq.mp new)) fun _ => spreadsChain h _)
    fun _ => .bind (spreadsPrimary h) fun _ => spreadsChain h _)

theorem spreadsPostfix : Spreads known lo (postfixExpression sub) :=
  .here fun _ => .bind (spreadsLeftHandSide h) fun _ => .bind .kind fun _ => .bind .afterLineBreak fun _ =>
    .branch (fun _ => .bind .advance fun _ => .finish rfl _ _) fun _ => .pure _

theorem spreadsUnary : Spreads known lo (unaryExpression sub) := by
  have operand {lo : Nat} {kind : NodeKind} (plain : kind.isCall = false) (x : Slot → Payload) :
      Spreads none lo (do
        if ← enter then
          let operand ← sub .unary
          leave
          finish kind lo (x operand)
        else missing) :=
    .bind .enter fun _ => .branch
      (fun _ => .bind h.unary fun _ => .bind .leave fun _ => .finish plain _ _) fun _ => spreadsMissing
  exact .here fun _ => .bind .kind fun _ => .branch (fun _ => .bind .advance fun _ => operand rfl _)
    fun _ => .branch (fun _ => .bind .advance fun _ => operand rfl _) fun _ => spreadsPostfix h

theorem spreadsAssignment : Spreads known lo (assignment sub) :=
  .nested spreadsMissing (.bind (.isAt _) fun _ => .branch (fun _ => spreadsYield h) fun _ =>
    .bind (.look (LookAhead.strolls .arrowFunction)) fun _ => .branch (fun _ => spreadsArrow h) fun _ =>
      .here fun _ => .bind (spreadsBinary h 0) fun _ => spreadsAssignmentRest h _ _)

/-! ### Statements -/

theorem spreadsStatementStep (wholeFile : Bool) (statements : List Slot) :
    Spreads known lo (statementStep sub wholeFile statements) := by
  have dropped {lo : Nat} (fault : SyntaxFault) (statements : List Slot) : Spreads none lo (do
      reportHere fault
      advance
      return .yield statements : Parse (ForInStep (List Slot))) :=
    .bind (.report _) fun _ => .bind .advance fun _ => .pure _
  refine .bind .kind fun _ => .branch (fun _ => .pure _) fun _ => .branch
    (fun _ => .branch (fun _ => dropped _ _) fun _ => .pure _)
    fun _ => .here fun _ => .bind h.statement fun s => ?_
  cases s <;> exact .here fun _ => .bind .token fun _ => .branch (fun _ => dropped _ _) fun _ => .pure _

theorem spreadsStatements (wholeFile : Bool) : Spreads known lo (statementList sub wholeFile) :=
  .here fun _ => .bind (.loop (spreadsStatementStep h _) _) fun _ => .row _ _

theorem spreadsBlock : Spreads known lo (block sub) :=
  .bind .enter fun _ => .branch
    (fun _ => .here fun _ => .bind (.expect _) fun _ => .bind (spreadsStatements h _) fun _ =>
      .bind (.expect _) fun _ => .bind .leave fun _ => .finish rfl _ _)
    fun _ => .pure _

omit h in
theorem spreadsEmpty : Spreads known lo emptyStatement :=
  .here fun _ => .bind (.expect _) fun _ => .bind (.still fun _ => rfl) fun _ => .node rfl

theorem spreadsExpressionStatement : Spreads known lo (expressionStatement sub) :=
  .here fun _ => .bind (spreadsExpression h) fun _ => .here fun _ => .branch (fun _ => .pure _) fun _ =>
    .bind spreadsEndStatement fun _ => .finish rfl _ _

/-! ### Declarations -/

theorem spreadsVariable : Spreads known lo (variableDeclaration sub) :=
  .here fun _ => .bind (spreadsBindingName h) fun _ => .bind (.accept _) fun _ =>
    .bind spreadsOptionalType fun _ => .bind (spreadsInitializer h) fun _ => .finish rfl _ _

theorem spreadsDeclarationStep (items : List Slot) : Spreads known lo (declarationStep sub items) :=
  .bind (spreadsVariable h) fun _ => spreadsNext

theorem spreadsDeclarations : Spreads known lo (variableDeclarations sub) := by
  have rest {lo : Nat} (flags : NodeFlags) : Spreads none lo (do
      advance
      let listStart ← here
      let items ← loop (declarationStep sub) []
      let list ← listFrom listStart items.reverse
      let node ← finish .variableStatement lo (.declarations list)
      addFlags node flags
      return node) :=
    .bind .advance fun _ => .here fun _ => .bind (.loop (spreadsDeclarationStep h) _) fun _ =>
      .bind (.row _ _) fun _ => spreadsMarked rfl _ _ _
  refine .anywhere (.here fun _ => .bind .kind fun _ => ?_)
  split <;> exact rest _

omit h in
/- The row of declarations is a node of its own. -/
theorem declarationsPlain (s : ParseState) : ∀ i, (variableDeclarations sub s).1 = some i →
    ∃ n, (variableDeclarations sub s).2.tree.get? i = some n ∧ n.kind.isCall = false := by
  let Plain (answer : Slot × ParseState) : Prop :=
    ∀ i, answer.1 = some i → ∃ n, answer.2.tree.get? i = some n ∧ n.kind.isCall = false
  have behind {α : Type} {p : Parse α} {f : α → Parse Slot} (rest : ∀ x s, Plain (f x s))
      (s : ParseState) : Plain ((p >>= f) s) := rest _ _
  have last (start : Nat) (list : NodeList) (flags : NodeFlags) (s : ParseState) : Plain ((do
      let node ← finish .variableStatement start (.declarations list)
      addFlags node flags
      return node : Parse Slot) s) := by
    rintro i ⟨⟩
    let n : Node := .holding .variableStatement start s.cursor.prevStop (.declarations list)
    obtain ⟨m, found, same⟩ := Tree.addNew s.tree n
    obtain ⟨k, found', same'⟩ := Tree.growsFlags _ _ flags _ m found
    exact ⟨k, found', by rw [same'.kind, same.kind]; rfl⟩
  refine behind (fun start => behind fun k s => ?_) s
  split <;> exact behind (fun _ => behind fun _ => behind fun _ => behind fun _ => last _ _ _) s

/- The end that is moved behind the statement is not the end of a call. -/
theorem spreadsVariableStatement : Spreads known lo (variableStatement sub) := by
  intro s ordered there low
  have one := spreadsDeclarations h s ordered there low
  have plain := @declarationsPlain sub s
  show Spread lo s ((do
    endStatement
    stretch (variableDeclarations sub s).1
    return (variableDeclarations sub s).1 : Parse Slot) (variableDeclarations sub s).2).2
  generalize variableDeclarations sub s = declared at one plain
  obtain ⟨node, s'⟩ := declared
  refine one.trans ?_
  have ends : Spreads none lo endStatement := spreadsEndStatement
  have two := ends s' one.ordered (unknown _) (Nat.le_trans low one.place)
  refine two.trans ?_
  cases node with
  | none => exact .refl two.ordered
  | some i =>
    obtain ⟨n, found, noCall⟩ := plain i rfl
    obtain ⟨m, found', same⟩ := runGrows (readsEndStatement.run one.ordered) i n found
    exact .aside two.ordered rfl (Tree.placesStop found' (by rw [same.kind, noCall]) _)

theorem spreadsFunctionDeclaration : Spreads known lo (functionDeclaration sub) :=
  .here fun _ => .bind spreadsFunctionMarks fun _ => .bind spreadsName fun _ => spreadsMethod h rfl _ _ _

/-! ### Control flow -/

theorem spreadsCondition : Spreads known lo (condition sub) :=
  .bind (.expect _) fun _ => .bind (spreadsExpression h) fun _ => .bind (.expect _) fun _ => .pure _

theorem spreadsIf : Spreads known lo (ifStatement sub) :=
  .here fun _ => .bind (.expect _) fun _ => .bind (spreadsCondition h) fun _ => .bind h.statement fun _ =>
    .bind (.accept _) fun _ => .branch (fun _ => .bind h.statement fun _ => .finish rfl _ _)
      fun _ => .finish rfl _ _

theorem spreadsWhile : Spreads known lo (whileStatement sub) :=
  .here fun _ => .bind (.expect _) fun _ => .bind (spreadsCondition h) fun _ => .bind h.statement fun _ =>
    .finish rfl _ _

theorem spreadsDo : Spreads known lo (doStatement sub) :=
  .here fun _ => .bind (.expect _) fun _ => .bind h.statement fun _ => .bind (.expect _) fun _ =>
    .bind (spreadsCondition h) fun _ => .bind (.accept _) fun _ => .finish rfl _ _

theorem spreadsForInitializer : Spreads known lo (forInitializer sub) := by
  refine .within _ (.bind .kind fun _ => ?_)
  split
  · exact .pure _
  iterate 3 exact spreadsDeclarations h
  · exact spreadsExpression h

theorem spreadsExpressionUnless (k : TokenKind) : Spreads known lo (expressionUnless sub k) :=
  .bind (.isAt _) fun _ => .branch (fun _ => .pure _) fun _ => spreadsExpression h

theorem spreadsFor : Spreads known lo (forStatement sub) := by
  have overItems {lo : Nat} {k : NodeKind} (plain : k.isCall = false) (init : Slot) : Spreads none lo (do
      advance
      let subject ← sub .assignment
      expect (.punct .closeParen)
      let body ← sub .statement
      finish k lo (.iteration ⟨init, subject, body⟩)) :=
    .bind .advance fun _ => .bind h.assignment fun _ => .bind (.expect _) fun _ =>
      .bind h.statement fun _ => .finish plain _ _
  have counted {lo : Nat} (init : Slot) : Spreads none lo (do
      expect (.punct .semicolon)
      let test ← expressionUnless sub (.punct .semicolon)
      expect (.punct .semicolon)
      let increment ← expressionUnless sub (.punct .closeParen)
      expect (.punct .closeParen)
      let body ← sub .statement
      finish .forStatement lo (.loop ⟨init, test, increment, body⟩)) :=
    .bind (.expect _) fun _ => .bind (spreadsExpressionUnless h _) fun _ => .bind (.expect _) fun _ =>
      .bind (spreadsExpressionUnless h _) fun _ => .bind (.expect _) fun _ => .bind h.statement fun _ =>
      .finish rfl _ _
  refine .here fun _ => .bind (.expect _) fun _ => .bind (.accept _) fun _ => .bind (.expect _) fun _ =>
    .bind (spreadsForInitializer h) fun init => .know fun t => .see seesIteration ?_
  cases loops : iterates t with
  | none => exact .anywhere (counted init)
  | some k =>
    refine .anywhere (overItems ?_ init)
    rcases iteratesKind loops with ⟨rfl, _⟩ | ⟨rfl, _⟩ <;> rfl

theorem spreadsExit {kind : NodeKind} (plain : kind.isCall = false) :
    Spreads known lo (exitStatement sub kind) := by
  have rest {lo : Nat} (value : Slot) : Spreads none lo (do
      endStatement
      finish kind lo (.exit value)) :=
    .bind spreadsEndStatement fun _ => .finish plain _ _
  exact .anywhere (.here fun _ => .bind .advance fun _ => .bind .canEnd fun _ => .branch
    (fun _ => rest none) fun _ => .bind (spreadsExpression h) fun _ => rest _)

omit h in
theorem spreadsJump {kind : NodeKind} (plain : kind.isCall = false) :
    Spreads known lo (jumpStatement kind) := by
  have rest {lo : Nat} (label : Slot) : Spreads none lo (do
      endStatement
      finish kind lo (.jump label)) :=
    .bind spreadsEndStatement fun _ => .finish plain _ _
  exact .anywhere (.here fun _ => .bind .advance fun _ => .bind (.isAt _) fun _ =>
    .bind .afterLineBreak fun _ => .branch (fun _ => .bind spreadsName fun _ => rest _)
      fun _ => rest none)

theorem spreadsCatch : Spreads known lo (catchClause sub) := by
  have rest {lo : Nat} (binding : Slot) : Spreads none lo (do
      let body ← sub .block
      finish .catchClause lo (.handler ⟨binding, body⟩)) :=
    .bind h.block fun _ => .finish rfl _ _
  exact .anywhere (.here fun _ => .bind (.accept _) fun _ => .branch
    (fun _ => .bind (.accept _) fun _ => .branch
      (fun _ => .bind (spreadsVariable h) fun _ => .bind (.expect _) fun _ => rest _) fun _ => rest _)
    fun _ => .pure _)

theorem spreadsTry : Spreads known lo (tryStatement sub) := by
  have rest {lo : Nat} (body handler finalizer : Slot) : Spreads none lo (do
      if handler.isNone && finalizer.isNone then expect (.word .catchWord)
      finish .tryStatement lo (.attempt ⟨body, handler, finalizer⟩)) :=
    .branch (fun _ => .bind (.expect _) fun _ => .finish rfl _ _) fun _ => .finish rfl _ _
  exact .anywhere (.here fun _ => .bind (.expect _) fun _ => .bind h.block fun _ =>
    .bind (spreadsCatch h) fun _ => .bind (.accept _) fun _ => .branch
      (fun _ => .bind h.block fun _ => rest _ _ _) fun _ => rest _ _ none)

/-! ### Classes -/

omit h in
theorem spreadsStartsConstructor : Spreads known lo startsConstructor :=
  .bind (.contextual _) fun _ => .branch (fun _ => .look (LookAhead.strolls .constructor)) fun _ => .pure _

theorem spreadsClassMember : Spreads known lo (classMember sub) :=
  .here fun _ => .bind (spreadsMarks _) fun _ => .bind spreadsStartsConstructor fun _ => .branch
    (fun _ => .bind .advance fun _ => spreadsMethod h rfl _ _ _)
    fun _ => .bind .kind fun _ => .branch
      (fun _ => .bind (spreadsPropertyName h) fun _ => .bind (.accept _) fun _ => .bind (.accept _) fun _ =>
        .bind spreadsStartsMethod fun _ => .branch (fun _ => spreadsMethod h rfl _ _ _)
          fun _ => .bind spreadsOptionalType fun _ => .bind (spreadsInitializer h) fun _ =>
            .bind spreadsEndStatement fun _ => spreadsMarked rfl _ _ _)
      fun _ => .pure _

theorem spreadsMember (members : List Slot) : Spreads known lo (memberStep sub members) := by
  refine .bind .kind fun _ => .branch (fun _ => .pure _) fun _ => .bind (.accept _) fun _ => .branch
    (fun _ => .pure _) fun _ => .here fun _ => .bind (spreadsClassMember h) fun m => ?_
  cases m <;> exact .here fun _ => .branch
    (fun _ => .bind (.report _) fun _ => .bind .advance fun _ => .pure _) fun _ => .pure _

theorem spreadsMembers : Spreads known lo (classMembers sub) :=
  .here fun _ => .bind (.loop (spreadsMember h) _) fun _ => .row _ _

omit h in
theorem spreadsInterfaces : Spreads known lo skipInterfaces := by
  have round (x : Unit) : Spreads none lo (interfaceStep x) :=
    .bind spreadsTypeReference fun _ => .bind (.accept _) fun _ =>
      .branch (fun _ => .pure _) fun _ => .pure _
  exact .bind (.contextual _) fun _ => .branch (fun _ => .bind .advance fun _ => .loop round _)
    fun _ => .pure _

theorem spreadsClass : Spreads known lo (classDeclaration sub) := by
  have body {lo : Nat} (name heritage : Slot) : Spreads none lo (do
      skipInterfaces
      expect (.punct .openBrace)
      let members ← classMembers sub
      expect (.punct .closeBrace)
      finish .classDeclaration lo (.classBody ⟨name, heritage, members⟩)) :=
    .bind spreadsInterfaces fun _ => .bind (.expect _) fun _ => .bind (spreadsMembers h) fun _ =>
      .bind (.expect _) fun _ => .finish rfl _ _
  have rest {lo : Nat} (name : Slot) : Spreads none lo (do
      dropTypeArguments
      let heritage ←
        if ← accept (.word .extendsWord) then
          let base ← leftHandSide sub
          dropTypeArguments
          pure base
        else pure none
      skipInterfaces
      expect (.punct .openBrace)
      let members ← classMembers sub
      expect (.punct .closeBrace)
      finish .classDeclaration lo (.classBody ⟨name, heritage, members⟩)) :=
    .bind spreadsDropTypes fun _ => .bind (.accept _) fun _ => .branch
      (fun _ => .bind (spreadsLeftHandSide h) fun _ => .bind spreadsDropTypes fun _ => body _ _)
      fun _ => body _ none
  exact .anywhere (.here fun _ => .bind (.expect _) fun _ => .bind (.isAt _) fun _ =>
    .bind (.contextual _) fun _ => .branch (fun _ => .bind spreadsName fun _ => rest _) fun _ => rest none)

/-! ### All rules -/

theorem spreadsStatement : Spreads known lo (statement sub) := by
  refine .nested (.pure _) (.bind .kind fun _ => ?_)
  split
  · exact h.block
  · exact spreadsEmpty
  iterate 3 exact spreadsVariableStatement h
  · exact spreadsFunctionDeclaration h
  · exact .bind spreadsStartsAsync fun _ => .branch (fun _ => spreadsFunctionDeclaration h)
      fun _ => spreadsExpressionStatement h
  · exact spreadsClass h
  · exact spreadsIf h
  · exact spreadsWhile h
  · exact spreadsDo h
  · exact spreadsFor h
  iterate 2 exact spreadsExit h rfl
  iterate 2 exact spreadsJump rfl
  · exact spreadsTry h
  · exact spreadsExpressionStatement h

theorem spreadsRule : Spreading (rule sub) :=
  ⟨spreadsStatement h, spreadsBlock h, spreadsAssignment h, spreadsBinary h, spreadsUnary h,
    spreadsNew h, spreadsArrayLiteral h, spreadsObjectLiteral h⟩

end

theorem productionSpreads (fuel : Nat) : Spreading (production fuel) := by
  induction fuel with
  | zero => exact ⟨.pure _, .pure _, .pure _, fun _ => .pure _, .pure _, fun _ => .pure _, .pure _, .pure _⟩
  | succ fuel ih => exact spreadsRule ih

end CallGuard.Parse

namespace CallGuard.Program
open Parse

/- All calls of a program stand at different places that are not empty, those among them too that
recovery has left outside the tree of the file. -/
theorem callsApart (fileName : String) (text : List Char) :
    let calls := (parse fileName text).tree.callPlaces
    calls.Nodup ∧ ∀ c ∈ calls, c.1 < c.2 := by
  have reads : Spreads none 0 (statementList (production (fuelFor (tokensOf text).length)) true) :=
    spreadsStatements (productionSpreads _) true
  have spread : Spread 0 (initialState (tokensOf text)) (statements (tokensOf text)).2 :=
    reads _ (initialOrdered text) (unknown _) (Nat.zero_le _)
  obtain ⟨added, behind, apart, fresh⟩ := spread.calls
  rw [initialTree] at behind
  have all : (parse fileName text).tree.callPlaces = added := (Tree.placesPlain rfl).trans behind
  exact all ▸ ⟨apart, fun c member => (fresh c member).wide⟩

end CallGuard.Program
