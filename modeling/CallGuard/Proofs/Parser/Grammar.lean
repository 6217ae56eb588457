import CallGuard.Proofs.Parser.Reader
import Mathlib.Tactic.ByContra

/-! Every rule of the grammar does what a reader may do, if the parts are read by such rules: it
leaves a trace, and two ways of reading the parts that agree lead to the same answer. The number in
front of a rule bounds the productions that it may enter before it has taken a token. -/
namespace CallGuard.Parse

attribute [local simp] presentLinks Payload.slots

/- Two ways of reading the parts of a construct agree. A literal or a construction is only read
where one begins, and a block that begins here asks for less. -/
structure Agree (b : Option Nat) (sub sub' : SubParse) : Prop where
  statement : Reads b 4 .tried (sub .statement) (sub' .statement)
  block : Reads b 5 .tried (sub .block) (sub' .block)
  blockAt : ∀ {t}, t.kind = .punct .openBrace → ReadsAt b 1 .tried t (sub .block) (sub' .block)
  assignment : Reads b 3 .tried (sub .assignment) (sub' .assignment)
  binary : ∀ above, Reads b 3 .tried (sub (.binary above)) (sub' (.binary above))
  unary : Reads b 2 .tried (sub .unary) (sub' .unary)
  newExpression : ∀ {t}, t.kind = .word .newWord →
    ReadsAt b 1 .tried t (sub .newExpression) (sub' .newExpression)
  arrayLiteral : ∀ {t}, t.kind = .punct .openBracket →
    ReadsAt b 1 .tried t (sub .arrayLiteral) (sub' .arrayLiteral)
  objectLiteral : ∀ {t}, t.kind = .punct .openBrace →
    ReadsAt b 1 .tried t (sub .objectLiteral) (sub' .objectLiteral)

variable {b : Option Nat} {sub sub' : SubParse} {t : Token} {start : Nat}

/-! ### Tokens -/

theorem namedMore (named : t.kind.isNameLike = true) : t.isEnd = false := by
  refine beq_eq_false_iff_ne.mpr fun ends => ?_
  rw [ends] at named
  cases named

theorem readsAnyName : Reads b 0 .tried anyName anyName :=
  .plain fun _ => .see seesToken (.branch
    (fun named => .endsAt (goesTokenNode (namedMore named) ⟨agreesHolding rfl _ _, nofun⟩ rfl rfl rfl rfl
      rfl rfl NodeFlags.realNone))
    fun _ => .ends (readsMissing _))

theorem readsName : Reads b 0 .tried name name :=
  .plain fun _ => .see (seesIsAt _) (.branch (fun _ => .ends readsAnyName) fun _ =>
    .ends (readsMissing _))

/- A name that is at hand is taken. -/
theorem readsNameAt (there : t.kind = .identifier) : ReadsAt b 0 .moved t name name := by
  have node : ReadsAt b 0 .moved t anyName anyName := .plain <| .see seesToken <| .branch
    (fun named => .endsAt (goesTokenNode (namedMore named) ⟨agreesHolding rfl _ _, nofun⟩ rfl rfl rfl rfl
      rfl rfl NodeFlags.realNone))
    fun other => absurd (by rw [there]; rfl) other
  exact .plain (.see (seesIsAt _) (.branch (fun _ => .endsAt node) fun other =>
    absurd (beq_iff_eq.mpr there) other))

theorem readsBareToken (more : t.isEnd = false) : ReadsAt b 0 .moved t bareToken bareToken :=
  .plain (.see seesToken (.endsAt (goesTokenNode more ⟨bareAgrees _ _ _, nofun⟩ rfl rfl rfl rfl rfl rfl
    NodeFlags.realNone)))

theorem readsLiteral {k : TokenKind} [k.Proper] (there : t.kind = k)
    (form : (NodeKind.token k).form? = some .literal) :
    ReadsAt b 0 .moved t literal literal := by
  refine .plain (.see seesToken (.endsAt (goesTokenNode (moreThere there)
    ⟨agreesHolding ?_ _ _, nofun⟩ rfl rfl rfl rfl rfl rfl NodeFlags.realNone)))
  rw [there]
  exact form

/-! ### Types -/

theorem dottedLooks (s : ParseState) : lookAhead (do
    if ← isAt (.punct .dot) then
      advance
      isAt .identifier
    else return false) s = (s.cursor.current.kind == .punct .dot &&
      s.cursor.next.current.kind == .identifier, s) := by
  show (((ite ((s.cursor.current.kind == .punct .dot) = true) _ _ : Parse Bool) s).1,
    { ((ite ((s.cursor.current.kind == .punct .dot) = true) _ _ : Parse Bool) s).2 with
      cursor := s.cursor }) = _
  cases s.cursor.current.kind == .punct .dot <;> rfl

theorem peeksDotted : Peeks b t (fun _ => True) (lookAhead LookAhead.dottedName.body) :=
  .look (a := .begun) .dottedName (.plain (.see (seesIsAt _) (.branch
    (fun dot => .advance (moreThere (beq_iff_eq.mp dot)) (.ends (seesIsAt _).reads)) fun _ => .done)))
    fun _ _ => trivial

/- One more part of a dotted name takes the dot and the name that was seen behind it. -/
theorem readsDotted (head : String) : Reads b 0 .begun (dottedStep head) (dottedStep head) := by
  intro s ordered fits
  refine ⟨rfl, ?_⟩
  obtain ⟨⟨_, course⟩, _⟩ := peeksDotted s rfl ordered fits
  have back : (lookAhead LookAhead.dottedName.body s).2 = s := congrArg Prod.snd (dottedLooks s)
  rw [back] at course
  have held := (Held.begin ordered fits).quiet course
  unfold dottedStep
  rw [bindAt, dottedLooks]
  cases dotted : s.cursor.current.kind == .punct .dot &&
      s.cursor.next.current.kind == .identifier with
  | false => exact held
  | true =>
    obtain ⟨dot, name⟩ := Bool.and_eq_true_iff.mp dotted
    have first := held.take (moreThere (beq_iff_eq.mp dot))
    exact (first.take (moreThere (beq_iff_eq.mp name))).less (.refl _)

theorem readsTypeHead (named : t.kind.isNameLike = true) :
    ReadsAt b 0 .moved t typeHead typeHead :=
  .plain (.see seesToken (.branch
    (fun named => .advance (namedMore named) (.ends (.still fun _ => readsDotted _)))
    fun other => absurd named other))

theorem typeHeadElse {s : ParseState} (other : s.cursor.current.kind.isNameLike = false) :
    typeHead s = ("", s) := by
  show (ite (s.cursor.current.kind.isNameLike = true) _ _ : Parse String) s = _
  rw [other]
  rfl

theorem typeMore {scan : TypeScan} (other : ¬ scan.endsBefore t = true) : t.isEnd = false := by
  refine beq_eq_false_iff_ne.mpr fun ends => other ?_
  rw [TypeScan.endsBefore, ends]

theorem readsTypeStep (scan : TypeScan) : Reads b 0 .begun (typeStep scan) (typeStep scan) :=
  .plain fun _ => .see seesToken (.branch (fun _ => .done) fun other =>
    .advance (typeMore other) .done)

theorem readsTypeReference : Reads b 0 .tried typeReference typeReference := by
  have node {m : Progress} [m.Gives .tried] {known : Option Token} (start : Nat) (p : TypeReference) :
      Goes b 0 m known start [] .tried
        (do addNode (.holding .typeReference start (max (← prevStop) start) (.typeReference p)))
        (do addNode (.holding .typeReference start (max (← prevStop) start) (.typeReference p))) :=
    goesAdd (fun _ => ⟨agreesHolding rfl _ _, nofun⟩) (fun _ => rfl) (fun _ => rfl) (fun _ => rfl)
      (fun _ => .refl _) (fun _ behind => Nat.max_eq_left behind) (fun _ own => by cases own)
      fun _ => NodeFlags.realNone
  -- Behind a token that was taken it does not matter whether the type is reported.
  have moved (start : Nat) (head : String) (scan : TypeScan) : Goes b 0 .moved none start [] .tried
      (do
        unless scan.started do reportHere .identifierExpected
        addNode (.holding .typeReference start (max (← prevStop) start)
          (.typeReference ⟨head, scan.args.reverse⟩)))
      (do
        unless scan.started do reportHere .identifierExpected
        addNode (.holding .typeReference start (max (← prevStop) start)
          (.typeReference ⟨head, scan.args.reverse⟩))) :=
    .branch (fun _ => node _ _) fun _ => .report (node _ _)
  refine .begins fun t => ?_
  cases named : t.kind.isNameLike with
  | true =>
    exact .passAt (readsTypeHead named) fun _ => .pass (.still fun _ => readsTypeStep _) fun _ =>
      moved _ _ _
  | false =>
    refine .skip (x := "") (fun s there => typeHeadElse (there ▸ named)) ?_
    let scan : TypeScan := ⟨[], .unknown, false, []⟩
    cases ends : scan.endsBefore t with
    | true =>
      refine .skip (x := scan) (fun s there => loopStops ?_) (.report (node _ _))
      show (ite (scan.endsBefore s.cursor.current = true) _ _ : Parse _) s = _
      rw [there, ends]
      rfl
    | false =>
      have first : Goes b 0 .begun (some t) t.start [] .moved (typeStep scan) (typeStep scan) :=
        .see seesToken (.branch (fun yes => absurd (ends.symm.trans yes) Bool.noConfusion) fun other =>
          .advance (typeMore other) .done)
      refine .last (.loopTaking first fun _ => ?_) fun _ => moved _ _ _
      exact .ends (readsTypeStep _)

theorem readsOptionalType : Reads b 0 .begun optionalType optionalType :=
  .plain fun _ => .accept (.ends readsTypeReference) .absent

theorem goesTypeRow (start : Nat) (types : List Slot) :
    Goes b 0 .begun none start (refs types) .begun (typeRowStep types) (typeRowStep types) :=
  .know fun _ => .see seesKind (.branch (fun _ => .finished) fun _ => .see seesHere
    (.next readsTypeReference fun _ => .pass (readsAccept _) fun _ => .pass seesHere.reads fun _ =>
      .branch (fun _ => .pure (by simp)) fun _ => .pure (by simp)))

theorem readsTypeArguments (there : t.kind = .punct .less) :
    ReadsAt b 0 .moved t typeArguments typeArguments :=
  .begins (.takes there (.first (.collect goesTypeRow) fun _ => .pass (readsExpect _) fun _ =>
    goesRow _ _))

theorem skippedMore (other : ¬ endsTypeArguments t.kind = true) : t.isEnd = false := by
  refine beq_eq_false_iff_ne.mpr fun ends => other ?_
  rw [ends]
  rfl

theorem readsSkipTypesStep (x : Nat × Bool) :
    Reads b 0 .begun (skipTypesStep x) (skipTypesStep x) :=
  .plain fun _ => .see seesKind (.branch (fun _ => .done) fun other => .advance (skippedMore other)
    (.branch (fun _ => .done) fun _ => .branch (fun _ => .branch (fun _ => .done) fun _ => .done)
      fun _ => .done))

theorem readsSkipTypeArguments : Reads b 0 .begun skipTypeArguments skipTypeArguments :=
  .plain fun _ => .see (seesIsAt _) (.branch
    (fun _ => .pass (.still readsSkipTypesStep) fun _ => .done) fun _ => .done)

theorem readsDropTypeArguments : Reads b 0 .begun dropTypeArguments dropTypeArguments :=
  .plain fun _ => .see (seesIsAt _) (.branch
    (fun _ => .pass readsSkipTypeArguments fun _ => .done) fun _ => .done)

/- Type arguments that begin here are passed over, at least their bracket. -/
theorem readsDropped (there : t.kind = .punct .less) :
    ReadsAt b 0 .moved t dropTypeArguments dropTypeArguments := by
  have first (x : Nat × Bool) : Goes b 0 .begun (some t) t.start [] .moved (skipTypesStep x)
      (skipTypesStep x) :=
    .see seesKind (.branch (fun ends => by rw [there] at ends; cases ends) fun _ =>
      .advance (moreThere there) (.branch (fun _ => .done) fun _ =>
        .branch (fun _ => .branch (fun _ => .done) fun _ => .done) fun _ => .done))
  have skipped : ReadsAt b 0 .moved t skipTypeArguments skipTypeArguments :=
    .plain (.see (seesIsAt _) (.branch
      (fun _ => .last (.loopTaking (first _) fun _ => .ends (readsSkipTypesStep _)) fun _ => .done)
      fun other => absurd (beq_iff_eq.mpr there) other))
  exact .plain (.see (seesIsAt _) (.branch (fun _ => .passAt skipped fun _ => .done)
    fun other => absurd (beq_iff_eq.mpr there) other))

theorem readsSkipParensStep (x : Nat × Bool) :
    Reads b 0 .begun (skipParensStep x) (skipParensStep x) := by
  refine .plain fun t => .see seesKind ?_
  split
  iterate 3 exact .advance (moreThere ‹_›) .done
  iterate 3 exact .see (seesIsAt _) (.advance (moreThere ‹_›)
    (.branch (fun _ => .done) fun _ => .done))
  · exact .done
  · rename_i other
    exact .advance (beq_eq_false_iff_ne.mpr other) .done

theorem readsSkipParenthesized : Reads b 0 .begun skipParenthesized skipParenthesized :=
  .plain fun _ => .see (seesIsAt _) (.branch
    (fun _ => .pass (.still readsSkipParensStep) fun _ => .done) fun _ => .done)

/-! ### Expressions -/

theorem goesComma (h : Agree b sub sub') (start : Nat) (left : Slot) :
    Goes b 3 .tried none start (refs left) .tried (commaStep sub start left)
      (commaStep sub' start left) :=
  .accept (.next h.assignment fun _ => .build (goesFinish rfl rfl (by simp)) fun _ => .yielded)
    .finished

theorem readsExpression (h : Agree b sub sub') :
    Reads b 3 .tried (expression sub) (expression sub') :=
  .begins fun _ => .first h.assignment fun _ => .loop fun _ => goesComma h _ _

theorem bindsMore {forbidden : Bool} {above : Nat} (binds : ¬ precedence t.kind forbidden ≤ above) :
    t.isEnd = false := by
  refine beq_eq_false_iff_ne.mpr fun ends => binds ?_
  rw [ends]
  exact Nat.zero_le above

theorem goesBinary (h : Agree b sub sub') (above start : Nat) (left : Slot) :
    Goes b 2 .tried none start (refs left) .tried (binaryStep sub above start left)
      (binaryStep sub' above start left) :=
  .know fun _ => .see seesKind (.state fun _ => .branch (fun _ => .finished) fun binds =>
    .advance (bindsMore binds) (.next (h.binary _) fun _ =>
      .build (goesFinish rfl rfl (by simp)) fun _ => .yielded))

theorem readsBinary (h : Agree b sub sub') (above : Nat) :
    Reads b 2 .tried (binaryExpression sub above) (binaryExpression sub' above) :=
  .begins fun _ => .first h.unary fun _ => .loop fun _ => goesBinary h _ _ _

theorem goesAssignmentRest (h : Agree b sub sub') (start : Nat) (left : Slot) :
    Goes b 2 .tried none start (refs left) .tried (assignmentRest sub start left)
      (assignmentRest sub' start left) := by
  have more {t : Token} (assigns : t.kind.isAssignment = true) : t.isEnd = false := by
    refine beq_eq_false_iff_ne.mpr fun ends => ?_
    rw [ends] at assigns
    cases assigns
  exact .know fun _ => .see seesKind (.branch
    (fun assigns => .advance (more assigns) (.next h.assignment fun _ =>
      goesFinish rfl rfl (by simp)))
    fun _ => .branch
      (fun asks => .advance (moreThere (beq_iff_eq.mp asks))
        (.next (readsInForbidden _ h.assignment) fun _ => .pass (readsExpect _) fun _ =>
          .next h.assignment fun _ => goesFinish rfl rfl (by simp)))
      fun _ => .kept)

theorem readsYieldOperand (h : Agree b sub sub') :
    Reads b 3 .begun (yieldOperand sub) (yieldOperand sub') :=
  .plain fun _ => .see seesAfterLineBreak (.branch (fun _ => .absent) fun _ =>
    .accept (.ends h.assignment)
      (.see seesKind (.branch (fun _ => .ends h.assignment) fun _ => .absent)))

theorem readsYield (h : Agree b sub sub') (more : t.isEnd = false) :
    ReadsAt b 2 .moved t (yieldExpression sub) (yieldExpression sub') :=
  .begins (.advance more (.first (readsYieldOperand h) fun _ =>
    goesFinishTaken rfl nofun nofun (by simp)))

theorem readsSpread (h : Agree b sub sub') (there : t.kind = .punct .ellipsis) :
    ReadsAt b 0 .moved t (spreadElement sub) (spreadElement sub') :=
  .begins (.takes there (.first h.assignment fun _ => goesFinish rfl rfl (by simp)))

/-! ### Accesses and calls -/

/- An item of a row, and the comma that leads on to the next one. -/
theorem goesItem {r : Nat} (items : List Slot) (item : Slot) :
    Goes b r .begun none start (refs items ++ refs item) .begun
      (do if ← accept (.punct .comma) then return .yield (item :: items)
          else return .done (item :: items) : Parse (ForInStep (List Slot)))
      (do if ← accept (.punct .comma) then return .yield (item :: items)
          else return .done (item :: items)) :=
  .accept (.pure (by simp)) (.pure (by simp))

theorem goesArgument (h : Agree b sub sub') (start : Nat) (args : List Slot) :
    Goes b 3 .begun none start (refs args) .begun (argumentStep sub args) (argumentStep sub' args) :=
  .know fun _ => .see seesKind (.branch (fun _ => .finished) fun _ => .branch
    (fun spread => .nextAt (readsSpread h (beq_iff_eq.mp spread)) fun _ =>
      .weaken (goesItem _ _) (.refl _))
    fun _ => .next h.assignment fun _ => .weaken (goesItem _ _) (.refl _))

theorem readsArgumentRow (h : Agree b sub sub') (start : Nat) : Reads b 3 .begun
    (do
      let args ← withInForbidden false <| loop (argumentStep sub) []
      expect (.punct .closeParen)
      listFrom start args.reverse)
    (do
      let args ← withInForbidden false <| loop (argumentStep sub') []
      expect (.punct .closeParen)
      listFrom start args.reverse) :=
  .plain fun _ => .first (readsInForbidden _ (.collect (goesArgument h))) fun _ =>
    .pass (readsExpect _) fun _ => goesRow _ _

theorem readsArguments (h : Agree b sub sub') :
    Reads b 3 .tried (arguments sub) (arguments sub') :=
  .begins fun _ => .pass (readsExpect _) fun _ => .ends (readsArgumentRow h _)

theorem readsArgumentsAt (h : Agree b sub sub') (there : t.kind = .punct .openParen) :
    ReadsAt b 0 .moved t (arguments sub) (arguments sub') :=
  .begins (.takes there (.ends (readsArgumentRow h _)))

theorem goesCallRest (h : Agree b sub sub') (start : Nat) (callee : Slot)
    (opens : t.kind = .punct .openParen ∨ t.kind = .punct .less) :
    Goes b 1 .tried (some t) start (refs callee) .moved (callRest sub start callee)
      (callRest sub' start callee) := by
  have bare (there : t.kind = .punct .openParen) : Goes b 1 .tried (some t) start (refs callee) .moved
      (arguments sub >>= fun args => finish .callExpression start (.call ⟨callee, none, some args⟩))
      (arguments sub' >>= fun args => finish .callExpression start (.call ⟨callee, none, some args⟩)) :=
    .nextAt (readsArgumentsAt h there) fun _ => goesFinishCall rfl (by simp)
  have generic (there : t.kind = .punct .less) : Goes b 1 .tried (some t) start (refs callee) .moved
      (typeArguments >>= fun types => arguments sub >>= fun args =>
        finish .callExpression start (.call ⟨callee, some types, some args⟩))
      (typeArguments >>= fun types => arguments sub' >>= fun args =>
        finish .callExpression start (.call ⟨callee, some types, some args⟩)) :=
    .nextAt (readsTypeArguments there) fun _ => .next (readsArguments h) fun _ =>
      goesFinishCall rfl (by simp)
  refine .see (seesIsAt _) (.branch (fun less => generic (beq_iff_eq.mp less)) fun other => ?_)
  rcases opens with there | there
  · exact bare there
  · exact absurd (beq_iff_eq.mpr there) other

theorem goesFinishAccess {m : Progress} [m.Gives .tried] {known : Option Token} {kind : NodeKind}
    (form : kind.form? = some .access) (plain : kind.isPlain = true) (start : Nat) (a : Access) :
    Goes b 1 m known start (refs a.object ++ refs a.name) m (finishAccess kind start a)
      (finishAccess kind start a) := by
  obtain ⟨noCall, inside, ordered⟩ := plainKind plain
  refine goesAdd (fun _ => ⟨fun p own => ?_, inside⟩) (fun _ => rfl) (fun _ => rfl)
    (fun _ => (Payload.childrenLinked ordered _).trans (by simp)) (fun _ => .of_eq (by simp [Node.links, Node.accessing, Node.holding]))
    (fun _ _ => rfl) (fun _ own => Bool.noConfusion (noCall.symm.trans own)) fun _ => ?_
  · cases own
    exact form
  · show NodeFlags.Real (if a.optional then NodeFlags.optionalChain else 0)
    exact .of (by decide) NodeFlags.realNone

theorem goesPropertyRest (start : Nat) (object : Slot) (optional : Bool) :
    Goes b 1 .moved none start (refs object) .moved (propertyRest start object optional)
      (propertyRest start object optional) :=
  .next readsAnyName fun name => goesFinishAccess rfl rfl _ ⟨object, name, optional⟩

theorem goesElementRest (h : Agree b sub sub') (start : Nat) (object : Slot) (optional : Bool)
    (there : t.kind = .punct .openBracket) :
    Goes b 1 .tried (some t) start (refs object) .moved (elementRest sub start object optional)
      (elementRest sub' start object optional) :=
  .takes there (.next (readsInForbidden _ (readsExpression h)) fun index =>
    .pass (readsExpect _) fun _ => goesFinishAccess rfl rfl _ ⟨object, index, optional⟩)

theorem goesOptionalRest (h : Agree b sub sub') (start : Nat) (object : Slot) :
    Goes b 1 .moved none start (refs object) .moved (optionalRest sub start object)
      (optionalRest sub' start object) := by
  have call {t : Token} (opens : t.kind = .punct .openParen ∨ t.kind = .punct .less) :
      Goes b 1 .moved (some t) start (refs object) .moved
        (do
          let call ← callRest sub start object
          addFlags call .optionalChain
          return call)
        (do
          let call ← callRest sub' start object
          addFlags call .optionalChain
          return call) :=
    .last (.weaken (goesCallRest h _ _ opens) (.refl _)) fun _ =>
      .pass (readsAddFlags _ (by decide)) fun _ => .kept
  refine .know fun t => .see seesKind ?_
  split
  · exact call (.inl ‹_›)
  · exact call (.inr ‹_›)
  · exact .weaken (goesElementRest h _ _ _ ‹_›) (.refl _)
  · exact .anywhere (goesPropertyRest _ _ _)

theorem peeksGenericCall : Peeks b t (fun _ => True) startsGenericCall :=
  .look (a := .begun) .genericCall (.plain (.pass readsSkipTypeArguments fun _ => .branch
    (fun _ => .ends (seesIsAt _).reads) fun _ => .done)) fun _ _ => trivial

theorem goesChain (h : Agree b sub sub') (start : Nat) (object : Slot) :
    Goes b 1 .tried none start (refs object) .tried (chainStep sub start object)
      (chainStep sub' start object) := by
  refine .know fun t => .see seesKind ?_
  split
  · exact .advance (moreThere ‹_›) (.last (goesPropertyRest _ _ _) fun _ => .yielded)
  · exact .advance (moreThere ‹_›) (.last (goesOptionalRest h _ _) fun _ => .yielded)
  · exact .last (goesElementRest h _ _ _ ‹_›) fun _ => .yielded
  · exact .last (goesCallRest h _ _ (.inl ‹_›)) fun _ => .yielded
  · exact .peek peeksGenericCall fun _ _ => .branch
      (fun _ => .last (goesCallRest h _ _ (.inr ‹_›)) fun _ => .yielded) fun _ => .finished
  · exact .see seesAfterLineBreak (.branch (fun _ => .finished) fun _ =>
      .advance (moreThere ‹_›) (.build (goesFinish rfl rfl (by simp)) fun _ => .yielded))
  · exact .finished

theorem goesCallChain (h : Agree b sub sub') (start : Nat) (object : Slot) :
    Goes b 1 .tried none start (refs object) .tried (callChain sub start object)
      (callChain sub' start object) :=
  .loop fun _ => goesChain h _ _

/-! ### Functions -/

theorem readsBindingName (h : Agree b sub sub') :
    Reads b 1 .tried (bindingName sub) (bindingName sub') := by
  refine .plain fun t => .see seesKind ?_
  split
  · exact .endsAt (h.arrayLiteral ‹_›)
  · exact .endsAt (h.objectLiteral ‹_›)
  · exact .endsAt (readsBareToken (moreThere ‹_›))
  · exact .ends readsName

theorem readsInitializer (h : Agree b sub sub') :
    Reads b 0 .begun (initializer sub) (initializer sub') :=
  .plain fun _ => .accept (.ends h.assignment) .absent

theorem peeksParameterModifier (more : t.isEnd = false) :
    Peeks b t (fun _ => True) (lookAhead LookAhead.parameterModifier.body) :=
  .look (a := .begun) .parameterModifier
    (.plain (.advance more (.know fun _ => .see seesKind .done))) fun _ _ => trivial

theorem readsModifierStep (x : Unit) : Reads b 0 .begun (modifierStep x) (modifierStep x) := by
  refine .plain fun _ => .see seesToken (.branch (fun word => ?_) fun _ => .done)
  have more := moreThere (beq_iff_eq.mp (Bool.and_eq_true_iff.mp word).1)
  exact .peek (peeksParameterModifier more) fun _ _ =>
    .branch (fun _ => .advance more .done) fun _ => .done

theorem readsParameter (h : Agree b sub sub') :
    Reads b 1 .tried (parameter sub) (parameter sub') :=
  .begins fun _ => .pass (.still readsModifierStep) fun _ => .pass (readsAccept _) fun _ =>
    .first (readsBindingName h) fun _ => .pass (readsAccept _) fun _ =>
    .next readsOptionalType fun _ => .next (readsInitializer h) fun _ =>
      goesFinish rfl rfl (by simp)

theorem goesParameter (h : Agree b sub sub') (start : Nat) (params : List Slot) :
    Goes b 1 .begun none start (refs params) .begun (parameterStep sub params)
      (parameterStep sub' params) :=
  .know fun _ => .see seesKind (.branch (fun _ => .finished) fun _ => .see seesHere
    (.next (readsParameter h) fun _ => .pass (readsAccept _) fun _ => .pass seesHere.reads fun _ =>
      .branch (fun _ => .pure (by simp)) fun _ => .pure (by simp)))

theorem readsParameterRow (h : Agree b sub sub') (start : Nat) : Reads b 1 .begun
    (do
      let params ← loop (parameterStep sub) []
      expect (.punct .closeParen)
      listFrom start params.reverse)
    (do
      let params ← loop (parameterStep sub') []
      expect (.punct .closeParen)
      listFrom start params.reverse) :=
  .plain fun _ => .first (.collect (goesParameter h)) fun _ => .pass (readsExpect _) fun _ =>
    goesRow _ _

theorem readsParameters (h : Agree b sub sub') :
    Reads b 1 .tried (parameters sub) (parameters sub') :=
  .begins fun _ => .pass (readsExpect _) fun _ => .ends (readsParameterRow h _)

theorem readsParametersAt (h : Agree b sub sub') (there : t.kind = .punct .openParen) :
    ReadsAt b 1 .moved t (parameters sub) (parameters sub') :=
  .begins (.takes there (.ends (readsParameterRow h _)))

theorem goesMethodRest (h : Agree b sub sub') {kind : NodeKind} (form : kind.form? = some .function)
    (plain : kind.isPlain = true) (start : Nat) (name : Slot) {flags : NodeFlags} (real : flags.Real) :
    Goes b 1 .tried none start (refs name) .tried (methodRest sub kind start name flags)
      (methodRest sub' kind start name flags) := by
  exact .pass readsDropTypeArguments fun _ => .next (readsParameters h) fun _ =>
    .next readsOptionalType fun _ => .know fun _ => .see (seesIsAt _) (.branch
      (fun opens => .nextAt (h.blockAt (beq_iff_eq.mp opens)) fun _ =>
        goesMarked form plain (by simp) real)
      fun _ => .pass readsEndStatement fun _ => .next .absent fun _ =>
        goesMarked form plain (by simp) real)

theorem readsFunctionMarks : Reads b 0 .tried functionMarks functionMarks := by
  have rest {known : Option Token} (start : Nat) (async : Bool) : Goes b 0 .begun known start [] .tried
      (do
        expect (.word .functionWord)
        let star ← accept (.punct .asterisk)
        return (if async then NodeFlags.asyncFlag else 0) ||| (if star then NodeFlags.generator else 0))
      (do
        expect (.word .functionWord)
        let star ← accept (.punct .asterisk)
        return (if async then NodeFlags.asyncFlag else 0) ||| (if star then NodeFlags.generator else 0)) :=
    .pass (readsExpect _) fun _ => .pass (readsAccept _) fun _ => .done
  exact .plain fun _ => .see (seesContextual _) (.branch
    (fun async => .advance (moreThere (beq_iff_eq.mp (Bool.and_eq_true_iff.mp async).1))
      (.weaken (rest _ _) (.refl _)))
    fun _ => rest _ _)

theorem functionMarksReal (s : ParseState) : (functionMarks s).1.Real := by
  have star (there : Bool) : NodeFlags.Real (if there then NodeFlags.generator else 0) :=
    .of (by decide) NodeFlags.realNone
  unfold functionMarks
  rw [bindAt, seesContextual]
  dsimp only
  split
  · exact NodeFlags.realOr (by decide) (star _)
  · exact NodeFlags.realOr NodeFlags.realNone (star _)

theorem readsFunctionExpression (h : Agree b sub sub') :
    Reads b 1 .tried (functionExpression sub) (functionExpression sub') :=
  .begins fun _ => .passSuch readsFunctionMarks functionMarksReal fun _ real => .know fun _ =>
    .see (seesIsAt _) (.fork (fun _ => .weaken readsName) (fun _ => .absent) fun _ =>
      goesMethodRest h rfl rfl _ _ real)

theorem peeksAsync : Peeks b t (fun _ => True) startsAsyncFunction :=
  .see (seesContextual _) (.branch
    (fun async => .look (a := .begun) .asyncFunction (.plain (.advance
      (moreThere (beq_iff_eq.mp (Bool.and_eq_true_iff.mp async).1))
      (.pass (seesIsAt _).reads fun _ => .pass seesAfterLineBreak.reads fun _ => .done)))
      fun _ _ => trivial)
    fun _ => .pure trivial)

theorem readsArrowFollows : Reads b 0 .begun arrowFollows arrowFollows := by
  have tail : Reads b 0 .begun
      (do
        unless ← skipParenthesized do return false
        let _ ← optionalType
        isAt (.punct .arrow))
      (do
        unless ← skipParenthesized do return false
        let _ ← optionalType
        isAt (.punct .arrow)) :=
    .plain fun _ => .pass readsSkipParenthesized fun _ => .branch
      (fun _ => .next readsOptionalType fun _ => .drop (.ends (seesIsAt _).reads) (List.nil_sublist _))
      fun _ => .done
  have row : Reads b 0 .begun
      (do
        if ← isAt (.punct .less) then
          unless ← skipTypeArguments do return false
        unless ← skipParenthesized do return false
        let _ ← optionalType
        isAt (.punct .arrow))
      (do
        if ← isAt (.punct .less) then
          unless ← skipTypeArguments do return false
        unless ← skipParenthesized do return false
        let _ ← optionalType
        isAt (.punct .arrow)) :=
    .plain fun _ => .see (seesIsAt _) (.branch
      (fun _ => .pass readsSkipTypeArguments fun _ => .branch (fun _ => .ends tail) fun _ => .done)
      fun _ => .ends tail)
  refine .plain fun t => .see seesKind ?_
  split
  · exact .advance (moreThere ‹_›) (.ends (seesIsAt _).reads)
  · exact .ends row
  · exact .ends row
  · exact .done

/- Only a word or an opening bracket begins an arrow function. -/
def OpensArrow (t : Token) : Prop :=
  t.kind = .identifier ∨ t.kind = .punct .openParen ∨ t.kind = .punct .less

theorem notContextual {text : String} (word : t.kind ≠ .identifier) :
    (t.kind == .identifier && t.value == text) = false := by
  rw [beq_eq_false_iff_ne.mpr word, Bool.false_and]

theorem startsUnmarked {s : ParseState} (word : s.cursor.current.kind ≠ .identifier) :
    (startsArrowFunction s).1 = (arrowFollows s).1 := by
  show ((ite ((s.cursor.current.kind == .identifier && s.cursor.current.value == "async") = true)
    _ _ : Parse Bool) s).1 = _
  rw [notContextual word]
  rfl

theorem arrowOpens {s : ParseState} (starts : (startsArrowFunction s).1 = true) :
    OpensArrow s.cursor.current := by
  by_contra other
  have silent : arrowFollows s = (false, s) := by
    unfold arrowFollows
    rw [bindAt, seesKind]
    unfold OpensArrow at other
    dsimp only
    generalize s.cursor.current.kind = k at other ⊢
    split
    · exact absurd (.inl rfl) other
    · exact absurd (.inr (.inl rfl)) other
    · exact absurd (.inr (.inr rfl)) other
    · rfl
  rw [startsUnmarked fun there => other (.inl there), silent] at starts
  cases starts

theorem peeksArrow : Peeks b t (fun x => x = true → OpensArrow t) startsArrowFunction := by
  have reads : ReadsAt b 0 .begun t
      (do
        if ← isContextual "async" then
          advance
          if ← afterLineBreak then return false
          if ← isAt (.punct .arrow) then return true
        arrowFollows)
      (do
        if ← isContextual "async" then
          advance
          if ← afterLineBreak then return false
          if ← isAt (.punct .arrow) then return true
        arrowFollows) :=
    .plain (.see (seesContextual _) (.branch
      (fun async => .advance (moreThere (beq_iff_eq.mp (Bool.and_eq_true_iff.mp async).1))
        (.pass seesAfterLineBreak.reads fun _ => .branch (fun _ => .done) fun _ =>
          .pass (seesIsAt _).reads fun _ => .branch (fun _ => .done) fun _ => .ends readsArrowFollows))
      fun _ => .ends readsArrowFollows))
  refine .look .arrowFunction reads fun s there => ?_
  rintro starts
  exact there ▸ arrowOpens starts

theorem readsStartsArrow : Reads b 0 .begun startsArrowFunction startsArrowFunction :=
  Peeks.reads (Q := fun _ => True) fun _ s there ordered fits => by
    obtain ⟨course, same, _⟩ := peeksArrow s there ordered fits
    exact ⟨course, same, trivial⟩

theorem readsBareParameter (there : t.kind = .identifier) :
    ReadsAt b 0 .moved t bareParameter bareParameter :=
  .begins (.firstAt (readsNameAt there) fun _ => .build (goesFinish rfl rfl (by simp)) fun s =>
    .drop (goesRow [s] _) (by simp))

theorem readsArrowParameters (h : Agree b sub sub') :
    Reads b 1 .begun (arrowParameters sub) (arrowParameters sub') :=
  .plain fun _ => .see (seesIsAt _) (.branch (fun word => .endsAt (readsBareParameter (beq_iff_eq.mp word)))
    fun _ => .pass readsDropTypeArguments fun _ => .ends (readsParameters h))

theorem readsArrowParametersAt (h : Agree b sub sub') (opens : OpensArrow t) :
    ReadsAt b 1 .moved t (arrowParameters sub) (arrowParameters sub') := by
  refine .plain (.see (seesIsAt _) (.branch
    (fun word => .endsAt (readsBareParameter (beq_iff_eq.mp word))) fun other => ?_))
  rcases opens with word | paren | less
  · exact absurd (beq_iff_eq.mpr word) other
  · have still (s : ParseState) (there : s.cursor.current = t) : dropTypeArguments s = ((), s) := by
      have none : isAt (.punct .less) s = (false, s) :=
        Prod.ext (beq_eq_false_iff_ne.mpr (by rw [there, paren]; rintro ⟨⟩)) rfl
      rw [dropTypeArguments, bindAt, none]
      rfl
    exact .skip still (.endsAt (readsParametersAt h paren))
  · exact .passAt (readsDropped less) fun _ => .ends (readsParameters h)

theorem goesArrowRest (h : Agree b sub sub') (start : Nat) (async : Bool) (params : NodeList) :
    Goes b 2 .moved none start (refs params) .moved (arrowRest sub start async params)
      (arrowRest sub' start async params) :=
  .next readsOptionalType fun _ => .pass (readsExpect _) fun _ => .know fun _ =>
    .see (seesIsAt _) (.fork (fun _ => h.block) (fun _ => .weaken h.assignment) fun _ =>
      goesMarked rfl rfl (by simp) (.of (by decide) NodeFlags.realNone))

theorem peeksAsyncArrow (more : t.isEnd = false) :
    Peeks b t (fun _ => True) (lookAhead LookAhead.asyncArrow.body) :=
  .look (a := .begun) .asyncArrow (.plain (.advance more (.pass (seesIsAt _).reads fun _ => .done)))
    fun _ _ => trivial

theorem readsArrowFunction (h : Agree b sub sub') (opens : OpensArrow t) :
    ReadsAt b 2 .moved t (arrowFunction sub) (arrowFunction sub') := by
  have plain : Goes b 2 .begun (some t) t.start [] .moved
      (do
        let params ← arrowParameters sub
        arrowRest sub t.start false params)
      (do
        let params ← arrowParameters sub'
        arrowRest sub' t.start false params) :=
    .firstAt (readsArrowParametersAt h opens) fun _ => goesArrowRest h _ _ _
  refine .begins (.see (seesContextual _) (.branch (fun async => ?_) fun _ => plain))
  have more := moreThere (beq_iff_eq.mp (Bool.and_eq_true_iff.mp async).1)
  refine .peek (peeksAsyncArrow more) fun x _ => ?_
  cases x with
  | true => exact .advance more (.first (readsArrowParameters h) fun _ => goesArrowRest h _ _ _)
  | false => exact plain

/-! ### Literals -/

theorem goesElement (h : Agree b sub sub') (start : Nat) (items : List Slot) :
    Goes b 3 .begun none start (refs items) .begun (elementStep sub items) (elementStep sub' items) := by
  refine .know fun t => .see seesKind ?_
  split
  · exact .finished
  · exact .finished
  · exact goesHole (moreThere ‹_›) fun _ => .pure (by simp)
  · exact .branch
      (fun spread => .nextAt (readsSpread h (beq_iff_eq.mp spread)) fun _ =>
        .weaken (goesItem _ _) (.refl _))
      fun _ => .next h.assignment fun _ => .weaken (goesItem _ _) (.refl _)

theorem readsArrayLiteral (h : Agree b sub sub') (there : t.kind = .punct .openBracket) :
    ReadsAt b 0 .tried t (arrayLiteral sub) (arrayLiteral sub') :=
  .begins (.takes there (.pass seesHere.reads fun _ => .first (.collect (goesElement h)) fun _ =>
    .build (goesRow _ _) fun _ => .pass (readsExpect _) fun _ =>
      goesFinish rfl rfl (by simp)))

theorem peeksModifies (modifiers : List String) :
    Peeks b t (fun x => x = true → t.kind = .identifier) (modifiesMember modifiers) :=
  .see seesToken (.branch
    (fun word => .look (a := .begun) .memberModifier
      (.plain (.advance (moreThere (beq_iff_eq.mp (Bool.and_eq_true_iff.mp word).1))
        (.pass seesAfterLineBreak.reads fun _ => .pass seesKind.reads fun _ => .done)))
      fun _ _ _ => beq_iff_eq.mp (Bool.and_eq_true_iff.mp word).1)
    fun _ => .pure (by rintro ⟨⟩))

theorem readsMarkStep (modifiers : List String) (flags : NodeFlags) :
    Reads b 0 .begun (markStep modifiers flags) (markStep modifiers flags) :=
  .plain fun _ => .peek (peeksModifies modifiers) fun _ word => .branch
    (fun yes => .see seesToken (.advance (moreThere (word yes)) .done)) fun _ => .done

theorem readsMarks (modifiers : List String) :
    Reads b 0 .begun (memberMarks modifiers) (memberMarks modifiers) :=
  .plain fun _ => .pass (.still (readsMarkStep modifiers)) fun _ => .accept .done .done

theorem marksReal (modifiers : List String) (s : ParseState) : (memberMarks modifiers s).1.Real := by
  have round (flags : NodeFlags) (real : flags.Real) (s : ParseState) :
      (markStep modifiers flags s).1.value.Real := by
    unfold markStep
    rw [bindAt]
    split
    · exact NodeFlags.realOr real (.of (by decide) (.of (by decide) NodeFlags.realNone))
    · exact real
  have flags : (memberModifiers modifiers s).1.Real := loopAnswers round NodeFlags.realNone s
  unfold memberMarks
  rw [bindAt, bindAt]
  split
  · exact NodeFlags.realOr flags (by decide)
  · exact flags

theorem readsPropertyName (h : Agree b sub sub') :
    Reads b 0 .tried (propertyName sub) (propertyName sub') := by
  refine .plain fun t => .see seesKind ?_
  split
  · exact .endsAt (readsLiteral ‹_› rfl)
  · exact .endsAt (readsLiteral ‹_› rfl)
  · exact .see seesHere (.advance (moreThere ‹_›) (.first h.assignment fun _ =>
      .pass (readsExpect _) fun _ => goesFinish rfl rfl (by simp)))
  · exact .ends readsAnyName

theorem seesStartsMethod : Sees startsMethod fun t =>
    t.kind == .punct .openParen || t.kind == .punct .less := fun _ => rfl

theorem readsObjectMember (h : Agree b sub sub') :
    Reads b 1 .tried (objectMember sub) (objectMember sub') :=
  .begins fun _ => .see (seesIsAt _) (.branch
    (fun spread => .endsAt (readsSpread h (beq_iff_eq.mp spread)))
    fun _ => .passSuch (readsMarks _) (marksReal _) fun _ real => .first (readsPropertyName h) fun _ =>
      .pass seesStartsMethod.reads fun _ => .branch (fun _ => goesMethodRest h rfl rfl _ _ real)
        fun _ => .accept (.next h.assignment fun _ => goesFinish rfl rfl (by simp))
          (.next (readsInitializer h) fun _ => goesFinish rfl rfl (by simp)))

theorem goesObject (h : Agree b sub sub') (start : Nat) (items : List Slot) :
    Goes b 1 .begun none start (refs items) .begun (objectStep sub items) (objectStep sub' items) :=
  .know fun _ => .see seesKind (.branch (fun _ => .finished) fun _ => .see seesHere
    (.next (readsObjectMember h) fun _ => .pass (readsAccept _) fun _ => .pass seesHere.reads fun _ =>
      .branch (fun _ => .pure (by simp)) fun _ => .pure (by simp)))

theorem readsObjectLiteral (h : Agree b sub sub') (there : t.kind = .punct .openBrace) :
    ReadsAt b 0 .tried t (objectLiteral sub) (objectLiteral sub') :=
  .begins (.takes there (.pass seesHere.reads fun _ => .first (.collect (goesObject h)) fun _ =>
    .build (goesRow _ _) fun _ => .pass (readsExpect _) fun _ =>
      goesFinish rfl rfl (by simp)))

theorem readsParenthesized (h : Agree b sub sub') (there : t.kind = .punct .openParen) :
    ReadsAt b 0 .tried t (parenthesized sub) (parenthesized sub') :=
  .begins (.takes there (.first (readsInForbidden _ (readsExpression h)) fun _ =>
    .pass (readsExpect _) fun _ => goesFinish rfl rfl (by simp)))

theorem readsPrimary (h : Agree b sub sub') : Reads b 1 .tried (primary sub) (primary sub') := by
  refine .plain fun t => .see seesKind ?_
  split
  · exact .peek peeksAsync fun _ _ => .branch (fun _ => .ends (readsFunctionExpression h))
      fun _ => .ends readsName
  iterate 5 exact .endsAt (readsBareToken (moreThere ‹_›))
  iterate 3 exact .endsAt (readsLiteral ‹_› rfl)
  · exact .endsAt (readsParenthesized h ‹_›)
  · exact .endsAt (readsArrayLiteral h ‹_›)
  · exact .endsAt (readsObjectLiteral h ‹_›)
  · exact .ends (readsFunctionExpression h)
  · exact .ends (readsMissing _)

/-! ### Operators before and after -/

theorem goesConstructor (h : Agree b sub sub') (start : Nat) (object : Slot) :
    Goes b 1 .tried none start (refs object) .tried (constructorStep sub start object)
      (constructorStep sub' start object) := by
  refine .know fun t => .see seesKind ?_
  split
  · exact .advance (moreThere ‹_›) (.last (goesPropertyRest _ _ _) fun _ => .yielded)
  · exact .last (goesElementRest h _ _ _ ‹_›) fun _ => .yielded
  · exact .finished

theorem goesConstructorChain (h : Agree b sub sub') (start : Nat) (object : Slot) :
    Goes b 1 .tried none start (refs object) .tried (constructorChain sub start object)
      (constructorChain sub' start object) :=
  .loop fun _ => goesConstructor h _ _

theorem readsConstructorHead (h : Agree b sub sub') :
    Reads b 1 .tried (constructorHead sub) (constructorHead sub') :=
  .plain fun _ => .see (seesIsAt _) (.branch
    (fun new => .endsAt (h.newExpression (beq_iff_eq.mp new))) fun _ => .ends (readsPrimary h))

theorem peeksConstructedTypes : Peeks b t (fun _ => True) (lookAhead skipTypeArguments) :=
  .look (a := .begun) .constructedTypes (.anywhere readsSkipTypeArguments) fun _ _ => trivial

theorem goesConstructorRest (h : Agree b sub sub') (start : Nat) (callee : Slot) :
    Goes b 0 .moved none start (refs callee) .moved (constructorRest sub start callee)
      (constructorRest sub' start callee) := by
  have last (typeArgs : Option NodeList) : Goes b 0 .moved none start (refs callee ++ refs typeArgs) .moved
      (do
        let args ← if ← isAt (.punct .openParen) then some <$> arguments sub else pure none
        finish .newExpression start (.call ⟨callee, typeArgs, args⟩))
      (do
        let args ← if ← isAt (.punct .openParen) then some <$> arguments sub' else pure none
        finish .newExpression start (.call ⟨callee, typeArgs, args⟩)) :=
    .know fun _ => .see (seesIsAt _) (.branch
      (fun _ => .next (.map (fun _ => rfl) (readsArguments h)) fun _ => goesFinishCall rfl (by simp))
      fun _ => .next .unlisted fun _ => goesFinishCall rfl (by simp))
  exact .know fun _ => .see (seesIsAt _) (.branch
    (fun less => .peek peeksConstructedTypes fun _ _ => .branch
      (fun _ => .nextAt (.map (fun _ => rfl) (readsTypeArguments (beq_iff_eq.mp less))) last)
      fun _ => .next .unlisted last)
    fun _ => .next .unlisted last)

theorem readsNewExpression (h : Agree b sub sub') (there : t.kind = .word .newWord) :
    ReadsAt b 0 .tried t (newExpression sub) (newExpression sub') := by
  have refused : Goes b 0 .moved none t.start [] .tried
      (reportHere .nestedTooDeeply >>= fun _ => missing)
      (reportHere .nestedTooDeeply >>= fun _ => missing) := .ends (readsMissing _)
  refine .begins (.takes there ?_)
  intro s₀ s place here now
  rw [bindAt, bindAt]
  by_cases room : s.depth < maxNesting
  · rw [enterRoom room]
    -- The head is read one level deeper, and what follows it begins where the head begins.
    have fits : Affords b 1 s := now.room.fewer
    obtain ⟨same, read⟩ := readsConstructorHead h { s with depth := s.depth + 1 } now.still fits
    obtain ⟨ts, _, course, made⟩ := read.course
    have head := (Held.begin now.still fits).chain (.nest room course) made
    obtain ⟨same', chain⟩ := goesConstructorChain h s.cursor.current.start _ s _ rfl (unknown _) head
    obtain ⟨same'', rest⟩ := goesConstructorRest h t.start _ s₀ _ place (unknown _) (now.and chain)
    have all (sub : SubParse) : (do
        let calleeStart ← Parse.here
        let head ← constructorHead sub
        leave
        let callee ← constructorChain sub calleeStart head
        constructorRest sub t.start callee : Parse Slot) { s with depth := s.depth + 1 } =
      (constructorHead sub >>= fun head => leave >>= fun _ =>
        constructorChain sub s.cursor.current.start head >>= constructorRest sub t.start)
          { s with depth := s.depth + 1 } := rfl
    rw [if_pos rfl, if_pos rfl, all, all]
    refine ⟨bindSame same (bindSame (p := leave) rfl ?_), rest.less (.refl _)⟩
    exact bindSame same' same''
  · rw [enterFull (Nat.not_lt.mp room)]
    exact refused s₀ s place here now

theorem readsLeftHandSide (h : Agree b sub sub') :
    Reads b 1 .tried (leftHandSide sub) (leftHandSide sub') :=
  .begins fun _ => .see (seesIsAt _) (.branch
    (fun new => .firstAt (readsNewExpression h (beq_iff_eq.mp new)) fun _ => goesCallChain h _ _)
    fun _ => .first (readsPrimary h) fun _ => goesCallChain h _ _)

theorem readsPostfix (h : Agree b sub sub') :
    Reads b 1 .tried (postfixExpression sub) (postfixExpression sub') := by
  refine .begins fun _ => .first (readsLeftHandSide h) fun _ => .know fun t => .see seesKind ?_
  exact .see seesAfterLineBreak (.branch
    (fun marked => .advance (by
      rcases Bool.or_eq_true_iff.mp (Bool.and_eq_true_iff.mp marked).1 with one | two
      · exact moreThere (beq_iff_eq.mp one)
      · exact moreThere (beq_iff_eq.mp two)) (goesFinish rfl rfl (by simp)))
    fun _ => .kept)

theorem readsUnary (h : Agree b sub sub') :
    Reads b 1 .tried (unaryExpression sub) (unaryExpression sub') := by
  have more {t : Token} (prefixed : isPrefixOperator t.kind = true) : t.isEnd = false := by
    refine beq_eq_false_iff_ne.mpr fun ends => ?_
    rw [ends] at prefixed
    cases prefixed
  exact .begins fun _ => .see seesKind (.branch
    (fun prefixed => .advance (more prefixed) (.nest h.unary
      (fun _ => goesFinish rfl rfl (by simp)) (.ends (readsMissing _))))
    fun _ => .branch
      (fun awaits => .advance (moreThere (beq_iff_eq.mp awaits)) (.nest h.unary
        (fun _ => goesFinishTaken rfl nofun nofun (by simp)) (.ends (readsMissing _))))
      fun _ => .ends (readsPostfix h))

theorem readsAssignment (h : Agree b sub sub') :
    Reads b 2 .tried (assignment sub) (assignment sub') :=
  readsNested (.plain fun _ => .ends (readsMissing _)) (.plain fun _ => .see (seesIsAt _) (.branch
    (fun yields => .endsAt (readsYield h (moreThere (beq_iff_eq.mp yields))))
    fun _ => .peek peeksArrow fun _ opens => .branch
      (fun starts => .endsAt (readsArrowFunction h (opens starts)))
      fun _ => .see seesHere (.first (readsBinary h 0) fun _ => goesAssignmentRest h _ _)))

end CallGuard.Parse
