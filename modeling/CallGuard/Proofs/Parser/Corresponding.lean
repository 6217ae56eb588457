import CallGuard.Parser.Statement
import CallGuard.Proofs.Parser.Alike

/-! Every rule of the grammar reads two rows of tokens alike, if the parts of a construct are read alike.
The places where constructs begin are only kept for their nodes and rows; where a rule compares a place with
the one at hand, both correspond. -/
namespace CallGuard.Parse

/- The parts of a construct are read alike from both rows. -/
abbrev Steady (P : Places) (sub : SubParse) : Prop := ∀ p, Same P (sub p) (sub p)

variable {P : Places} {sub : SubParse} {start start' : Nat}

/-! ### Types -/

theorem sameDotted (head : String) : Same P (dottedStep head) (dottedStep head) := by
  have looks : Same P
      (do
        if ← isAt (.punct .dot) then
          advance
          isAt .identifier
        else return false)
      (do
        if ← isAt (.punct .dot) then
          advance
          isAt .identifier
        else return false) :=
    .next (sameIsAt _) fun _ => .branch (.next sameAdvance fun _ => sameIsAt _) .same
  exact .next (sameLook looks) fun _ => .branch
    (.next sameAdvance fun _ => .token fun _ _ _ _ _ => .next sameAdvance fun _ => .same) .same

theorem sameTypeHead : Same P typeHead typeHead :=
  .token fun _ _ _ _ _ => .branch (.next sameAdvance fun _ => sameLoop sameDotted _) .same

theorem sameTypeStep (scan : TypeScan) : Same P (typeStep scan) (typeStep scan) :=
  .token fun _ _ _ _ _ => .branch .same (.next sameAdvance fun _ => .same)

theorem sameTypeReference : Same P typeReference typeReference :=
  .here fun _ _ _ => .next sameTypeHead fun _ => .next (sameLoop sameTypeStep _) fun _ =>
    .branch (.prevStop fun _ _ => sameAddNode rfl)
      (.next (sameReport _ rfl) fun _ => .prevStop fun _ _ => sameAddNode rfl)

theorem sameOptionalType : Same P optionalType optionalType :=
  .accept sameTypeReference .same

/- A row goes on behind a comma, unless that is still where its last item began. -/
theorem sameGoesOn (items : List Slot) (before : P.same start start') : Same P
    (do if (← accept (.punct .comma)) && (← here) != start then return .yield items
        else return .done items : Parse (ForInStep (List Slot)))
    (do if (← accept (.punct .comma)) && (← here) != start' then return .yield items
        else return .done items) :=
  .next (sameAccept _) fun comma => .here fun _ _ after =>
    .branchSame (congrArg (comma && !·) (P.equals after before)) .same .same

theorem sameTypeRow (types : List Slot) : Same P (typeRowStep types) (typeRowStep types) :=
  .next sameKind fun _ => .branch .same (.here fun _ _ before => .next sameTypeReference fun _ =>
    sameGoesOn _ before)

theorem likeTypeArguments : Alike P RowLike typeArguments typeArguments :=
  .here fun _ _ _ => .next (sameExpect _) fun _ => .next (sameLoop sameTypeRow _) fun _ =>
    .next (sameExpect _) fun _ => likeRow _ _ _

theorem sameSkipTypesStep (x : Nat × Bool) : Same P (skipTypesStep x) (skipTypesStep x) :=
  .next sameKind fun _ => .branch .same (.next sameAdvance fun _ => .branch .same
    (.branch (.branch .same .same) .same))

theorem sameSkipTypeArguments : Same P skipTypeArguments skipTypeArguments :=
  .next (sameIsAt _) fun _ => .branch (.next (sameLoop sameSkipTypesStep _) fun _ => .same) .same

theorem sameDropTypeArguments : Same P dropTypeArguments dropTypeArguments :=
  .next (sameIsAt _) fun _ => .branch (.next sameSkipTypeArguments fun _ => .same) .same

theorem sameSkipParensStep (x : Nat × Bool) : Same P (skipParensStep x) (skipParensStep x) := by
  refine .next sameKind fun k => ?_
  split
  iterate 3 exact .next sameAdvance fun _ => .same
  iterate 3 exact .next (sameIsAt _) fun _ => .next sameAdvance fun _ => .branch .same .same
  · exact .same
  · exact .next sameAdvance fun _ => .same

theorem sameSkipParenthesized : Same P skipParenthesized skipParenthesized :=
  .next (sameIsAt _) fun _ => .branch (.next (sameLoop sameSkipParensStep _) fun _ => .same) .same

/-! ### Expressions -/

theorem sameComma (h : Steady P sub) (left : Slot) :
    Same P (commaStep sub start left) (commaStep sub start' left) :=
  .accept (.next (h _) fun _ => .next (sameFinish rfl) fun _ => .same) .same

theorem sameExpression (h : Steady P sub) : Same P (expression sub) (expression sub) :=
  .here fun _ _ _ => .next (h _) fun _ => sameLoop (sameComma h) _

theorem sameBinaryStep (h : Steady P sub) (above : Nat) (left : Slot) :
    Same P (binaryStep sub above start left) (binaryStep sub above start' left) :=
  .next sameKind fun _ => .forbidden fun _ _ same => same ▸ .branch .same
    (.next sameAdvance fun _ => .next (h _) fun _ => .next (sameFinish rfl) fun _ => .same)

theorem sameBinary (h : Steady P sub) (above : Nat) :
    Same P (binaryExpression sub above) (binaryExpression sub above) :=
  .here fun _ _ _ => .next (h _) fun _ => sameLoop (sameBinaryStep h above) _

theorem sameAssignmentRest (h : Steady P sub) (left : Slot) :
    Same P (assignmentRest sub start left) (assignmentRest sub start' left) :=
  .next sameKind fun _ => .branch
    (.next sameAdvance fun _ => .next (h _) fun _ => sameFinish rfl)
    (.branch
      (.next sameAdvance fun _ => .next (sameWithin _ (h _)) fun _ => .next (sameExpect _) fun _ =>
        .next (h _) fun _ => sameFinish rfl)
      .same)

theorem sameYieldOperand (h : Steady P sub) : Same P (yieldOperand sub) (yieldOperand sub) :=
  .next sameLineBreak fun _ => .branch .same (.accept (h _)
    (.next sameKind fun _ => .branch (h _) .same))

theorem sameYield (h : Steady P sub) : Same P (yieldExpression sub) (yieldExpression sub) :=
  .here fun _ _ _ => .next sameAdvance fun _ => .next (sameYieldOperand h) fun _ => sameFinish rfl

theorem sameSpread (h : Steady P sub) : Same P (spreadElement sub) (spreadElement sub) :=
  .here fun _ _ _ => .next (sameExpect _) fun _ => .next (h _) fun _ => sameFinish rfl

/-! ### Accesses and calls -/

/- An item of a row, and the comma that leads on to the next one. -/
theorem sameItem (items : List Slot) (item : Slot) : Same P
    (do if ← accept (.punct .comma) then return .yield (item :: items)
        else return .done (item :: items) : Parse (ForInStep (List Slot)))
    (do if ← accept (.punct .comma) then return .yield (item :: items)
        else return .done (item :: items)) :=
  .accept .same .same

theorem sameArgument (h : Steady P sub) (args : List Slot) :
    Same P (argumentStep sub args) (argumentStep sub args) :=
  .next sameKind fun _ => .branch .same (.branch
    (.next (sameSpread h) fun _ => sameItem _ _) (.next (h _) fun _ => sameItem _ _))

theorem likeArguments (h : Steady P sub) : Alike P RowLike (arguments sub) (arguments sub) :=
  .here fun _ _ _ => .next (sameExpect _) fun _ => .next (sameWithin _ (sameLoop (sameArgument h) _))
    fun _ => .next (sameExpect _) fun _ => likeRow _ _ _

/- A row that is there. -/
theorem likeSome {p : Parse NodeList} (like : Alike P RowLike p p) :
    Alike P RowLike? (some <$> p) (some <$> p) :=
  .map like fun _ _ same => congrArg some same

theorem likeNone : Alike P RowLike? (pure none) (pure none) := .pure rfl

theorem likeCall (callee : Slot) {types types' args args' : Option NodeList} (one : RowLike? types types')
    (two : RowLike? args args') :
    (Payload.call ⟨callee, types', args'⟩).placeless = (Payload.call ⟨callee, types, args⟩).placeless :=
  congrArg₂ (fun types args => Payload.call ⟨callee, types, args⟩) one two

theorem likeFunction {name type body : Slot} {params params' : NodeList} (like : RowLike params params') :
    (Payload.function ⟨name, params', type, body⟩).placeless =
      (Payload.function ⟨name, params, type, body⟩).placeless :=
  congrArg (fun params => Payload.function ⟨name, params, type, body⟩) like

theorem sameCallRest (h : Steady P sub) (callee : Slot) :
    Same P (callRest sub start callee) (callRest sub start' callee) := by
  have last (types types' : Option NodeList) (same : RowLike? types types') : Same P
      (do
        let args ← arguments sub
        finish .callExpression start (.call ⟨callee, types, some args⟩))
      (do
        let args ← arguments sub
        finish .callExpression start' (.call ⟨callee, types', some args⟩)) :=
    .bind (likeArguments h) fun _ _ args => sameFinish (likeCall callee same (congrArg some args))
  exact .next (sameIsAt _) fun _ => .branch (.bind (likeSome likeTypeArguments) last)
    (.bind likeNone last)

theorem sameFinishAccess (kind : NodeKind) (a : Access) :
    Same P (finishAccess kind start a) (finishAccess kind start' a) :=
  .prevStop fun _ _ => sameAddNode rfl

theorem samePropertyRest (object : Slot) (optional : Bool) :
    Same P (propertyRest start object optional) (propertyRest start' object optional) :=
  .next sameAnyName fun _ => sameFinishAccess _ _

theorem sameElementRest (h : Steady P sub) (object : Slot) (optional : Bool) :
    Same P (elementRest sub start object optional) (elementRest sub start' object optional) :=
  .next (sameExpect _) fun _ => .next (sameWithin _ (sameExpression h)) fun _ =>
    .next (sameExpect _) fun _ => sameFinishAccess _ _

theorem sameOptionalRest (h : Steady P sub) (object : Slot) :
    Same P (optionalRest sub start object) (optionalRest sub start' object) := by
  have call : Same P
      (do
        let call ← callRest sub start object
        addFlags call .optionalChain
        return call)
      (do
        let call ← callRest sub start' object
        addFlags call .optionalChain
        return call) :=
    .next (sameCallRest h _) fun _ => .next (sameFlags _ _) fun _ => .same
  refine .next sameKind fun k => ?_
  split
  · exact call
  · exact call
  · exact sameElementRest h _ _
  · exact samePropertyRest _ _

theorem sameStartsGenericCall : Same P startsGenericCall startsGenericCall :=
  sameLook (.next sameSkipTypeArguments fun _ => .branch (sameIsAt _) .same)

theorem sameChain (h : Steady P sub) (object : Slot) :
    Same P (chainStep sub start object) (chainStep sub start' object) := by
  refine .next sameKind fun k => ?_
  split
  · exact .next sameAdvance fun _ => .next (samePropertyRest _ _) fun _ => .same
  · exact .next sameAdvance fun _ => .next (sameOptionalRest h _) fun _ => .same
  · exact .next (sameElementRest h _ _) fun _ => .same
  · exact .next (sameCallRest h _) fun _ => .same
  · exact .next sameStartsGenericCall fun _ => .branch (.next (sameCallRest h _) fun _ => .same) .same
  · exact .next sameLineBreak fun _ => .branch .same (.next sameAdvance fun _ =>
      .next (sameFinish rfl) fun _ => .same)
  · exact .same

theorem sameCallChain (h : Steady P sub) (first : Slot) :
    Same P (callChain sub start first) (callChain sub start' first) :=
  sameLoop (sameChain h) _

/-! ### Functions -/

theorem sameBindingName (h : Steady P sub) : Same P (bindingName sub) (bindingName sub) := by
  refine .next sameKind fun k => ?_
  split
  · exact h _
  · exact h _
  · exact sameBareToken
  · exact sameName

theorem sameInitializer (h : Steady P sub) : Same P (initializer sub) (initializer sub) :=
  .accept (h _) .same

theorem sameModifierStep (x : Unit) : Same P (modifierStep x) (modifierStep x) :=
  .token fun _ _ _ _ _ => .branch
    (.next (sameLook (.next sameAdvance fun _ => .next sameKind fun _ => .same)) fun _ =>
      .branch (.next sameAdvance fun _ => .same) .same)
    .same

theorem sameParameter (h : Steady P sub) : Same P (parameter sub) (parameter sub) :=
  .here fun _ _ _ => .next (sameLoop sameModifierStep _) fun _ => .next (sameAccept _) fun _ =>
    .next (sameBindingName h) fun _ => .next (sameAccept _) fun _ => .next sameOptionalType fun _ =>
    .next (sameInitializer h) fun _ => sameFinish rfl

theorem sameParameterStep (h : Steady P sub) (params : List Slot) :
    Same P (parameterStep sub params) (parameterStep sub params) :=
  .next sameKind fun _ => .branch .same (.here fun _ _ before => .next (sameParameter h) fun _ =>
    sameGoesOn _ before)

theorem likeParameters (h : Steady P sub) : Alike P RowLike (parameters sub) (parameters sub) :=
  .here fun _ _ _ => .next (sameExpect _) fun _ => .next (sameLoop (sameParameterStep h) _) fun _ =>
    .next (sameExpect _) fun _ => likeRow _ _ _

/- A function and its marks. -/
theorem sameMarked {kind : NodeKind} {f f' : Function} (like : (Payload.function f').placeless =
    (Payload.function f).placeless) (flags : NodeFlags) : Same P
      (do
        let node ← finish kind start (.function f)
        addFlags node flags
        return node)
      (do
        let node ← finish kind start' (.function f')
        addFlags node flags
        return node) :=
  .next (sameFinish like) fun _ => .next (sameFlags _ _) fun _ => .same

theorem sameMethodRest (h : Steady P sub) (kind : NodeKind) (name : Slot) (flags : NodeFlags) :
    Same P (methodRest sub kind start name flags) (methodRest sub kind start' name flags) :=
  .next sameDropTypeArguments fun _ => .bind (likeParameters h) fun _ _ params =>
    .next sameOptionalType fun _ => .next (sameIsAt _) fun _ => .branch
      (.next (h _) fun _ => sameMarked (likeFunction params) _)
      (.next sameEndStatement fun _ => .next .same fun _ => sameMarked (likeFunction params) _)

theorem sameFunctionMarks : Same P functionMarks functionMarks := by
  have rest (async : Bool) : Same P
      (do
        expect (.word .functionWord)
        let star ← accept (.punct .asterisk)
        return (if async then NodeFlags.asyncFlag else 0) ||| (if star then NodeFlags.generator else 0))
      (do
        expect (.word .functionWord)
        let star ← accept (.punct .asterisk)
        return (if async then NodeFlags.asyncFlag else 0) ||| (if star then NodeFlags.generator else 0)) :=
    .next (sameExpect _) fun _ => .next (sameAccept _) fun _ => .same
  exact .next (sameContextual _) fun _ => .branch (.next sameAdvance fun _ => rest _) (rest _)

theorem sameFunctionExpression (h : Steady P sub) :
    Same P (functionExpression sub) (functionExpression sub) :=
  .here fun _ _ _ => .next sameFunctionMarks fun _ => .next (sameIsAt _) fun _ => .branch
    (.next sameName fun _ => sameMethodRest h _ _ _) (.next .same fun _ => sameMethodRest h _ _ _)

theorem sameStartsAsync : Same P startsAsyncFunction startsAsyncFunction :=
  .next (sameContextual _) fun _ => .branch
    (sameLook (.next sameAdvance fun _ => .next (sameIsAt _) fun _ => .next sameLineBreak fun _ => .same))
    .same

theorem sameArrowFollows : Same P arrowFollows arrowFollows := by
  have tail : Same P
      (do
        unless ← skipParenthesized do return false
        let _ ← optionalType
        isAt (.punct .arrow))
      (do
        unless ← skipParenthesized do return false
        let _ ← optionalType
        isAt (.punct .arrow)) :=
    .next sameSkipParenthesized fun _ => .branch (.next sameOptionalType fun _ => sameIsAt _) .same
  have row : Same P
      (do
        if ← isAt (.punct .less) then
          unless ← skipTypeArguments do return false
        unless ← skipParenthesized do return false
        let _ ← optionalType
        isAt (.punct .arrow))
      (do
        if ← isAt (.punct .less) then
          unless ← skipTypeArguments do return false
        unless ← skipParenthesized do return false
        let _ ← optionalType
        isAt (.punct .arrow)) :=
    .next (sameIsAt _) fun _ => .branch (.next sameSkipTypeArguments fun _ => .branch tail .same) tail
  refine .next sameKind fun k => ?_
  split
  · exact .next sameAdvance fun _ => sameIsAt _
  · exact row
  · exact row
  · exact .same

theorem sameStartsArrow : Same P startsArrowFunction startsArrowFunction :=
  sameLook (.next (sameContextual _) fun _ => .branch
    (.next sameAdvance fun _ => .next sameLineBreak fun _ => .branch .same
      (.next (sameIsAt _) fun _ => .branch .same sameArrowFollows))
    sameArrowFollows)

theorem likeBareParameter : Alike P RowLike bareParameter bareParameter :=
  .here fun _ _ _ => .next sameName fun _ => .next (sameFinish rfl) fun _ => likeRow _ _ _

theorem likeArrowParameters (h : Steady P sub) :
    Alike P RowLike (arrowParameters sub) (arrowParameters sub) :=
  .next (sameIsAt _) fun _ => .branch likeBareParameter
    (.next sameDropTypeArguments fun _ => likeParameters h)

theorem sameArrowRest (h : Steady P sub) (async : Bool) {params params' : NodeList}
    (like : RowLike params params') :
    Same P (arrowRest sub start async params) (arrowRest sub start' async params') :=
  .next sameOptionalType fun _ => .next (sameExpect _) fun _ => .next (sameIsAt _) fun _ => .branch
    (.next (h _) fun _ => sameMarked (likeFunction like) _)
    (.next (h _) fun _ => sameMarked (likeFunction like) _)

theorem sameArrow (h : Steady P sub) : Same P (arrowFunction sub) (arrowFunction sub) := by
  refine .here fun start start' _ => ?_
  have plain (async : Bool) : Same P
      (do
        let params ← arrowParameters sub
        arrowRest sub start async params)
      (do
        let params ← arrowParameters sub
        arrowRest sub start' async params) :=
    .bind (likeArrowParameters h) fun _ _ params => sameArrowRest h _ params
  have marked (async : Bool) : Same P
      (do
        if async then advance
        let params ← arrowParameters sub
        arrowRest sub start async params)
      (do
        if async then advance
        let params ← arrowParameters sub
        arrowRest sub start' async params) :=
    .branch (.next sameAdvance fun _ => plain _) (plain _)
  exact .next (sameContextual _) fun _ => .branch
    (.next (sameLook (.next sameAdvance fun _ => .next (sameIsAt _) fun _ => .same)) marked)
    (.next .same marked)

/-! ### Literals -/

theorem sameElement (h : Steady P sub) (items : List Slot) :
    Same P (elementStep sub items) (elementStep sub items) := by
  refine .next sameKind fun k => ?_
  split
  · exact .same
  · exact .same
  · exact .here fun _ _ _ => .next (sameAddNode rfl) fun _ => .next sameAdvance fun _ => .same
  · exact .branch (.next (sameSpread h) fun _ => sameItem _ _) (.next (h _) fun _ => sameItem _ _)

/- A literal of items between brackets. -/
theorem sameItems {kind : NodeKind} {opening closing : TokenKind}
    {step : List Slot → Parse (ForInStep (List Slot))} (each : ∀ items, Same P (step items) (step items)) :
    Same P
      (do
        let start ← here
        expect opening
        let listStart ← here
        let items ← loop step []
        let list ← listFrom listStart items.reverse
        expect closing
        finish kind start (.elements list))
      (do
        let start ← here
        expect opening
        let listStart ← here
        let items ← loop step []
        let list ← listFrom listStart items.reverse
        expect closing
        finish kind start (.elements list)) :=
  .here fun _ _ _ => .next (sameExpect _) fun _ => .here fun _ _ _ => .next (sameLoop each _) fun _ =>
    .bind (likeRow _ _ _) fun _ _ row => .next (sameExpect _) fun _ =>
      sameFinish (congrArg Payload.elements row)

theorem sameArrayLiteral (h : Steady P sub) : Same P (arrayLiteral sub) (arrayLiteral sub) :=
  sameItems (sameElement h)

theorem sameModifies (modifiers : List String) :
    Same P (modifiesMember modifiers) (modifiesMember modifiers) :=
  .token fun _ _ _ _ _ => .branch
    (sameLook (.next sameAdvance fun _ => .next sameLineBreak fun _ => .next sameKind fun _ => .same))
    .same

theorem samePropertyName (h : Steady P sub) : Same P (propertyName sub) (propertyName sub) := by
  refine .next sameKind fun k => ?_
  split
  · exact sameLiteral
  · exact sameLiteral
  · exact .here fun _ _ _ => .next sameAdvance fun _ => .next (h _) fun _ => .next (sameExpect _) fun _ =>
      sameFinish rfl
  · exact sameAnyName

theorem sameMarkStep (modifiers : List String) (flags : NodeFlags) :
    Same P (markStep modifiers flags) (markStep modifiers flags) :=
  .next (sameModifies _) fun _ => .branch
    (.token fun _ _ _ _ _ => .next sameAdvance fun _ => .same) .same

theorem sameMarks (modifiers : List String) : Same P (memberMarks modifiers) (memberMarks modifiers) :=
  .next (sameLoop (sameMarkStep modifiers) _) fun _ => .accept .same .same

theorem sameStartsMethod : Same P startsMethod startsMethod := .next sameKind fun _ => .same

theorem sameObjectMember (h : Steady P sub) : Same P (objectMember sub) (objectMember sub) :=
  .here fun _ _ _ => .next (sameIsAt _) fun _ => .branch (sameSpread h)
    (.next (sameMarks _) fun _ => .next (samePropertyName h) fun _ => .next sameStartsMethod fun _ =>
      .branch (sameMethodRest h _ _ _) (.accept
        (.next (h _) fun _ => sameFinish rfl) (.next (sameInitializer h) fun _ => sameFinish rfl)))

theorem sameObjectStep (h : Steady P sub) (items : List Slot) :
    Same P (objectStep sub items) (objectStep sub items) :=
  .next sameKind fun _ => .branch .same (.here fun _ _ before => .next (sameObjectMember h) fun _ =>
    sameGoesOn _ before)

theorem sameObjectLiteral (h : Steady P sub) : Same P (objectLiteral sub) (objectLiteral sub) :=
  sameItems (sameObjectStep h)

theorem sameParenthesized (h : Steady P sub) : Same P (parenthesized sub) (parenthesized sub) :=
  .here fun _ _ _ => .next (sameExpect _) fun _ => .next (sameWithin _ (sameExpression h)) fun _ =>
    .next (sameExpect _) fun _ => sameFinish rfl

theorem samePrimary (h : Steady P sub) : Same P (primary sub) (primary sub) := by
  refine .next sameKind fun k => ?_
  split
  · exact .next sameStartsAsync fun _ => .branch (sameFunctionExpression h) sameName
  iterate 5 exact sameBareToken
  iterate 3 exact sameLiteral
  · exact sameParenthesized h
  · exact sameArrayLiteral h
  · exact sameObjectLiteral h
  · exact sameFunctionExpression h
  · exact .next (sameReport _ rfl) fun _ => sameMissing

/-! ### Operators before and after -/

theorem sameConstructorStep (h : Steady P sub) (object : Slot) :
    Same P (constructorStep sub start object) (constructorStep sub start' object) := by
  refine .next sameKind fun k => ?_
  split
  · exact .next sameAdvance fun _ => .next (samePropertyRest _ _) fun _ => .same
  · exact .next (sameElementRest h _ _) fun _ => .same
  · exact .same

theorem sameConstructorHead (h : Steady P sub) : Same P (constructorHead sub) (constructorHead sub) :=
  .next (sameIsAt _) fun _ => .branch (h _) (samePrimary h)

theorem sameConstructorRest (h : Steady P sub) (callee : Slot) :
    Same P (constructorRest sub start callee) (constructorRest sub start' callee) := by
  have last (types types' : Option NodeList) (same : RowLike? types types') : Same P
      (do
        let args ← if ← isAt (.punct .openParen) then some <$> arguments sub else pure none
        finish .newExpression start (.call ⟨callee, types, args⟩))
      (do
        let args ← if ← isAt (.punct .openParen) then some <$> arguments sub else pure none
        finish .newExpression start' (.call ⟨callee, types', args⟩)) :=
    .next (sameIsAt _) fun _ => .branch
      (.bind (likeSome (likeArguments h)) fun _ _ args => sameFinish (likeCall callee same args))
      (.bind likeNone fun _ _ args => sameFinish (likeCall callee same args))
  exact .next (sameIsAt _) fun _ => .branch
    (.next (sameLook sameSkipTypeArguments) fun _ => .branch
      (.bind (likeSome likeTypeArguments) last) (.bind likeNone last))
    (.bind likeNone last)

theorem sameNewExpression (h : Steady P sub) : Same P (newExpression sub) (newExpression sub) :=
  .here fun _ _ _ => .next (sameExpect _) fun _ => .next sameEnter fun _ => .branch
    (.here fun _ _ _ => .next (sameConstructorHead h) fun _ => .next sameLeave fun _ =>
      .next (sameLoop (sameConstructorStep h) _) fun _ => sameConstructorRest h _)
    sameMissing

theorem sameLeftHandSide (h : Steady P sub) : Same P (leftHandSide sub) (leftHandSide sub) :=
  .here fun _ _ _ => .next (sameIsAt _) fun _ => .branch
    (.next (sameNewExpression h) fun _ => sameCallChain h _)
    (.next (samePrimary h) fun _ => sameCallChain h _)

theorem samePostfix (h : Steady P sub) : Same P (postfixExpression sub) (postfixExpression sub) :=
  .here fun _ _ _ => .next (sameLeftHandSide h) fun _ => .next sameKind fun _ =>
    .next sameLineBreak fun _ => .branch (.next sameAdvance fun _ => sameFinish rfl) .same

theorem sameUnary (h : Steady P sub) : Same P (unaryExpression sub) (unaryExpression sub) :=
  .here fun _ _ _ => .next sameKind fun _ => .branch
    (.next sameAdvance fun _ => .next sameEnter fun _ => .branch
      (.next (h _) fun _ => .next sameLeave fun _ => sameFinish rfl) sameMissing)
    (.branch
      (.next sameAdvance fun _ => .next sameEnter fun _ => .branch
        (.next (h _) fun _ => .next sameLeave fun _ => sameFinish rfl) sameMissing)
      (samePostfix h))

theorem sameAssignment (h : Steady P sub) : Same P (assignment sub) (assignment sub) :=
  sameNested sameMissing (.next (sameIsAt _) fun _ => .branch (sameYield h)
    (.next sameStartsArrow fun _ => .branch (sameArrow h)
      (.here fun _ _ _ => .next (sameBinary h 0) fun _ => sameAssignmentRest h _)))

/-! ### Statements -/

/- A statement that takes nothing is dropped with its first token in both rows. -/
theorem sameStatementStep (h : Steady P sub) (wholeFile : Bool) (statements : List Slot) :
    Same P (statementStep sub wholeFile statements) (statementStep sub wholeFile statements) := by
  refine .next sameKind fun _ => .branch .same (.branch
    (.branch (.next (sameReport _ rfl) fun _ => .next sameAdvance fun _ => .same) .same)
    (.here fun start start' before => .next (h _) fun s => ?_))
  have held (statements : List Slot) : Same P
      (do
        if (← here) == start && !(← token).isEnd then
          reportHere .statementExpected
          advance
        return .yield statements : Parse (ForInStep (List Slot)))
      (do
        if (← here) == start' && !(← token).isEnd then
          reportHere .statementExpected
          advance
        return .yield statements) :=
    .here fun _ _ after => .token fun t _ _ _ _ =>
      .branchSame (congrArg (· && !t.isEnd) (P.equals after before))
        (.next (sameReport _ rfl) fun _ => .next sameAdvance fun _ => .same) .same
  cases s with
  | none => exact held statements
  | some i => exact held (some i :: statements)

theorem likeStatementList (h : Steady P sub) (wholeFile : Bool) :
    Alike P RowLike (statementList sub wholeFile) (statementList sub wholeFile) :=
  .here fun _ _ _ => .next (sameLoop (sameStatementStep h wholeFile) _) fun _ => likeRow _ _ _

theorem sameBlock (h : Steady P sub) : Same P (block sub) (block sub) :=
  .next sameEnter fun _ => .branch
    (.here fun _ _ _ => .next (sameExpect _) fun _ => .bind (likeStatementList h _) fun _ _ row =>
      .next (sameExpect _) fun _ => .next sameLeave fun _ => sameFinish (congrArg Payload.block row))
    .same

theorem sameEmptyStatement : Same P emptyStatement emptyStatement :=
  .here fun _ _ _ => .next (sameExpect _) fun _ => .prevStop fun _ _ => sameAddNode rfl

theorem sameExpressionStatement (h : Steady P sub) :
    Same P (expressionStatement sub) (expressionStatement sub) :=
  .here fun _ _ before => .next (sameExpression h) fun _ => .here fun _ _ after =>
    .branchSame (P.equals after before) .same (.next sameEndStatement fun _ => sameFinish rfl)

/-! ### Declarations -/

theorem sameVariable (h : Steady P sub) : Same P (variableDeclaration sub) (variableDeclaration sub) :=
  .here fun _ _ _ => .next (sameBindingName h) fun _ => .next (sameAccept _) fun _ =>
    .next sameOptionalType fun _ => .next (sameInitializer h) fun _ => sameFinish rfl

theorem sameDeclarationStep (h : Steady P sub) (items : List Slot) :
    Same P (declarationStep sub items) (declarationStep sub items) :=
  .next (sameVariable h) fun _ => sameItem _ _

theorem sameVariables (h : Steady P sub) : Same P (variableDeclarations sub) (variableDeclarations sub) :=
  .here fun _ _ _ => .next sameKind fun _ => .next sameAdvance fun _ => .here fun _ _ _ =>
    .next (sameLoop (sameDeclarationStep h) _) fun _ => .bind (likeRow _ _ _) fun _ _ row =>
    .next (sameFinish (congrArg Payload.declarations row)) fun _ => .next (sameFlags _ _) fun _ => .same

theorem sameStretch (i : Slot) : Same P (stretch i) (stretch i) := by
  refine .prevStop fun stop stop' => ?_
  cases i with
  | none => exact .same
  | some i => exact fun _ _ before => ⟨rfl, before.cursor, before.depth, before.inForbidden,
      Tree.likeStop before.tree i stop stop'⟩

theorem sameVariableStatement (h : Steady P sub) : Same P (variableStatement sub) (variableStatement sub) :=
  .next (sameVariables h) fun _ => .next sameEndStatement fun _ => .next (sameStretch _) fun _ => .same

theorem sameFunctionDeclaration (h : Steady P sub) :
    Same P (functionDeclaration sub) (functionDeclaration sub) :=
  .here fun _ _ _ => .next sameFunctionMarks fun _ => .next sameName fun _ => sameMethodRest h _ _ _

/-! ### Control flow -/

theorem sameCondition (h : Steady P sub) : Same P (condition sub) (condition sub) :=
  .next (sameExpect _) fun _ => .next (sameExpression h) fun _ => .next (sameExpect _) fun _ => .same

theorem sameIf (h : Steady P sub) : Same P (ifStatement sub) (ifStatement sub) :=
  .here fun _ _ _ => .next (sameExpect _) fun _ => .next (sameCondition h) fun _ => .next (h _) fun _ =>
    .accept (.next (h _) fun _ => sameFinish rfl) (.next .same fun _ => sameFinish rfl)

theorem sameWhile (h : Steady P sub) : Same P (whileStatement sub) (whileStatement sub) :=
  .here fun _ _ _ => .next (sameExpect _) fun _ => .next (sameCondition h) fun _ => .next (h _) fun _ =>
    sameFinish rfl

theorem sameDo (h : Steady P sub) : Same P (doStatement sub) (doStatement sub) :=
  .here fun _ _ _ => .next (sameExpect _) fun _ => .next (h _) fun _ => .next (sameExpect _) fun _ =>
    .next (sameCondition h) fun _ => .next (sameAccept _) fun _ => sameFinish rfl

theorem sameForInitializer (h : Steady P sub) : Same P (forInitializer sub) (forInitializer sub) := by
  refine sameWithin _ (.next sameKind fun k => ?_)
  split
  · exact .same
  iterate 3 exact sameVariables h
  · exact sameExpression h

theorem sameExpressionUnless (h : Steady P sub) (k : TokenKind) :
    Same P (expressionUnless sub k) (expressionUnless sub k) :=
  .next (sameIsAt _) fun _ => .branch .same (sameExpression h)

theorem sameIteration : Same P iterationKind iterationKind :=
  .next (sameContextual _) fun _ => .branch .same (.next (sameIsAt _) fun _ => .branch .same .same)

theorem sameFor (h : Steady P sub) : Same P (forStatement sub) (forStatement sub) := by
  refine .here fun _ _ _ => .next (sameExpect _) fun _ => .next (sameAccept _) fun _ =>
    .next (sameExpect _) fun _ => .next (sameForInitializer h) fun _ => .next sameIteration fun kind? => ?_
  cases kind? with
  | some kind =>
    exact .next sameAdvance fun _ => .next (h _) fun _ => .next (sameExpect _) fun _ => .next (h _) fun _ =>
      sameFinish rfl
  | none =>
    exact .next (sameExpect _) fun _ => .next (sameExpressionUnless h _) fun _ => .next (sameExpect _) fun _ =>
      .next (sameExpressionUnless h _) fun _ => .next (sameExpect _) fun _ => .next (h _) fun _ =>
      sameFinish rfl

theorem sameExit (h : Steady P sub) (kind : NodeKind) :
    Same P (exitStatement sub kind) (exitStatement sub kind) :=
  .here fun _ _ _ => .next sameAdvance fun _ => .next sameCanEnd fun _ => .branch
    (.next .same fun _ => .next sameEndStatement fun _ => sameFinish rfl)
    (.next (sameExpression h) fun _ => .next sameEndStatement fun _ => sameFinish rfl)

theorem sameJump (kind : NodeKind) : Same P (jumpStatement kind) (jumpStatement kind) :=
  .here fun _ _ _ => .next sameAdvance fun _ => .next (sameIsAt _) fun _ => .next sameLineBreak fun _ =>
    .branch (.next sameName fun _ => .next sameEndStatement fun _ => sameFinish rfl)
      (.next .same fun _ => .next sameEndStatement fun _ => sameFinish rfl)

theorem sameCatch (h : Steady P sub) : Same P (catchClause sub) (catchClause sub) := by
  refine .here fun start start' _ => .accept ?_ .same
  have rest (binding : Slot) : Same P
      (do
        let body ← sub .block
        finish .catchClause start (.handler ⟨binding, body⟩))
      (do
        let body ← sub .block
        finish .catchClause start' (.handler ⟨binding, body⟩)) :=
    .next (h _) fun _ => sameFinish rfl
  exact .accept (.next (sameVariable h) fun _ => .next (sameExpect _) fun _ => .next .same rest)
    (.next .same rest)

theorem sameTry (h : Steady P sub) : Same P (tryStatement sub) (tryStatement sub) := by
  refine .here fun start start' _ => .next (sameExpect _) fun _ => .next (h _) fun body =>
    .next (sameCatch h) fun handler => ?_
  have rest (finalizer : Slot) : Same P
      (do
        if handler.isNone && finalizer.isNone then expect (.word .catchWord)
        finish .tryStatement start (.attempt ⟨body, handler, finalizer⟩))
      (do
        if handler.isNone && finalizer.isNone then expect (.word .catchWord)
        finish .tryStatement start' (.attempt ⟨body, handler, finalizer⟩)) :=
    .branch (.next (sameExpect _) fun _ => sameFinish rfl) (sameFinish rfl)
  exact .accept (.next (h _) rest) (.next .same rest)

/-! ### Classes -/

theorem sameStartsConstructor : Same P startsConstructor startsConstructor :=
  .next (sameContextual _) fun _ => .branch (sameLook (.next sameAdvance fun _ => sameIsAt _)) .same

theorem sameClassMember (h : Steady P sub) : Same P (classMember sub) (classMember sub) :=
  .here fun _ _ _ => .next (sameMarks _) fun _ => .next sameStartsConstructor fun _ => .branch
    (.next sameAdvance fun _ => sameMethodRest h _ _ _)
    (.next sameKind fun _ => .branch
      (.next (samePropertyName h) fun _ => .next (sameAccept _) fun _ => .next (sameAccept _) fun _ =>
        .next sameStartsMethod fun _ => .branch (sameMethodRest h _ _ _)
          (.next sameOptionalType fun _ => .next (sameInitializer h) fun _ => .next sameEndStatement fun _ =>
            .next (sameFinish rfl) fun _ => .next (sameFlags _ _) fun _ => .same))
      .same)

theorem sameMemberStep (h : Steady P sub) (members : List Slot) :
    Same P (memberStep sub members) (memberStep sub members) := by
  refine .next sameKind fun _ => .branch .same (.accept .same
    (.here fun start start' before => .next (sameClassMember h) fun m => ?_))
  have held (members : List Slot) : Same P
      (do
        if (← here) == start then
          reportHere .unexpectedToken
          advance
        return .yield members : Parse (ForInStep (List Slot)))
      (do
        if (← here) == start' then
          reportHere .unexpectedToken
          advance
        return .yield members) :=
    .here fun _ _ after => .branchSame (P.equals after before)
      (.next (sameReport _ rfl) fun _ => .next sameAdvance fun _ => .same) .same
  cases m with
  | none => exact held members
  | some i => exact held (some i :: members)

theorem likeClassMembers (h : Steady P sub) : Alike P RowLike (classMembers sub) (classMembers sub) :=
  .here fun _ _ _ => .next (sameLoop (sameMemberStep h) _) fun _ => likeRow _ _ _

theorem sameInterfaceStep (x : Unit) : Same P (interfaceStep x) (interfaceStep x) :=
  .next sameTypeReference fun _ => .accept .same .same

theorem sameInterfaces : Same P skipInterfaces skipInterfaces :=
  .next (sameContextual _) fun _ => .branch (.next sameAdvance fun _ => sameLoop sameInterfaceStep _) .same

theorem sameClass (h : Steady P sub) : Same P (classDeclaration sub) (classDeclaration sub) := by
  refine .here fun start start' _ => .next (sameExpect _) fun _ => .next (sameIsAt _) fun _ =>
    .next (sameContextual _) fun _ => ?_
  have body (name heritage : Slot) : Same P
      (do
        skipInterfaces
        expect (.punct .openBrace)
        let members ← classMembers sub
        expect (.punct .closeBrace)
        finish .classDeclaration start (.classBody ⟨name, heritage, members⟩))
      (do
        skipInterfaces
        expect (.punct .openBrace)
        let members ← classMembers sub
        expect (.punct .closeBrace)
        finish .classDeclaration start' (.classBody ⟨name, heritage, members⟩)) :=
    .next sameInterfaces fun _ => .next (sameExpect _) fun _ => .bind (likeClassMembers h) fun _ _ row =>
      .next (sameExpect _) fun _ =>
        sameFinish (congrArg (fun members => Payload.classBody ⟨name, heritage, members⟩) row)
  have rest (name : Slot) : Same P
      (do
        dropTypeArguments
        let heritage ←
          if ← accept (.word .extendsWord) then
            let base ← leftHandSide sub
            dropTypeArguments
            pure base
          else pure none
        skipInterfaces
        expect (.punct .openBrace)
        let members ← classMembers sub
        expect (.punct .closeBrace)
        finish .classDeclaration start (.classBody ⟨name, heritage, members⟩))
      (do
        dropTypeArguments
        let heritage ←
          if ← accept (.word .extendsWord) then
            let base ← leftHandSide sub
            dropTypeArguments
            pure base
          else pure none
        skipInterfaces
        expect (.punct .openBrace)
        let members ← classMembers sub
        expect (.punct .closeBrace)
        finish .classDeclaration start' (.classBody ⟨name, heritage, members⟩)) :=
    .next sameDropTypeArguments fun _ => .accept
      (.next (sameLeftHandSide h) fun _ => .next sameDropTypeArguments fun _ => .next .same fun _ =>
        body _ _)
      (.next .same fun _ => body _ _)
  exact .branch (.next sameName rest) (.next .same rest)

/-! ### All productions -/

theorem sameStatement (h : Steady P sub) : Same P (statement sub) (statement sub) := by
  refine sameNested .same (.next sameKind fun k => ?_)
  split
  · exact h _
  · exact sameEmptyStatement
  iterate 3 exact sameVariableStatement h
  · exact sameFunctionDeclaration h
  · exact .next sameStartsAsync fun _ => .branch (sameFunctionDeclaration h) (sameExpressionStatement h)
  · exact sameClass h
  · exact sameIf h
  · exact sameWhile h
  · exact sameDo h
  · exact sameFor h
  iterate 2 exact sameExit h _
  iterate 2 exact sameJump _
  · exact sameTry h
  · exact sameExpressionStatement h

theorem steadyRule (h : Steady P sub) : Steady P (rule sub)
  | .statement => sameStatement h
  | .block => sameBlock h
  | .assignment => sameAssignment h
  | .binary above => sameBinary h above
  | .unary => sameUnary h
  | .newExpression => sameNewExpression h
  | .arrayLiteral => sameArrayLiteral h
  | .objectLiteral => sameObjectLiteral h

/- Any number of productions inside one another reads two rows alike. -/
theorem steadyProduction (fuel : Nat) : Steady P (production fuel) := by
  induction fuel with
  | zero => exact fun _ => .same
  | succ fuel ih => exact steadyRule ih

end CallGuard.Parse
