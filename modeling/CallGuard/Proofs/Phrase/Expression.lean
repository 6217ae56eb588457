import CallGuard.Proofs.Parser.Grammar
import CallGuard.Proofs.Phrase.Reader

/-! Each rule for expressions, functions and patterns reads what the rules of the language say. -/
namespace CallGuard.Phrase
open Parse

attribute [local simp] presentLinks presentChildren Payload.slots Payload.inOrder

/- The parts of a construct are read as the language has them. -/
structure SubRules (sub : SubParse) : Prop where
  statement : Forms (sub .statement) Stated
  block : Forms (sub .block) (IsNode .block)
  assignment : Forms (sub .assignment) (IsNode .expression)
  binary : ∀ above, Forms (sub (.binary above)) (IsNode .expression)
  unary : Forms (sub .unary) (IsNode .expression)
  newExpression : Forms (sub .newExpression) (IsNode .expression)
  arrayLiteral : ∀ {c}, c = .expression ∨ c = .binding → Forms (sub .arrayLiteral) (IsNode c)
  objectLiteral : ∀ {c}, c = .expression ∨ c = .binding → Forms (sub .objectLiteral) (IsNode c)

variable {sub : SubParse} {t : Token} {start : Nat} {known : Option Token} {held : List NodeId}
  {row : List Part} {facts : Prop} {c : Category}

/-! ### Tokens -/

theorem formsAnyName (role : c = .name ∨ c = .key) : Forms anyName (IsNode c) :=
  .plain fun _ => .see seesToken (.branch
    (fun named => .whole (.token (namedMore named) rfl rfl rfl (.name role named)))
    fun _ => .report .missing)

theorem formsName (role : c = .expression ∨ c = .binding ∨ c = .label) : Forms name (IsNode c) := by
  refine .plain fun t => .see (seesIsAt _) (.branch (fun there => ?_) fun _ => .report .missing)
  have kind := beq_iff_eq.mp there
  have named : t.kind.isNameLike = true := by rw [kind]; rfl
  exact .see seesToken (.branch
    (fun _ => .whole (.token (namedMore named) rfl rfl rfl (.identifier role kind)))
    fun other => absurd named other)

theorem formsConstant (kind : isConstant t.kind) : FormsAt (some t) bareToken (IsNode .expression) := by
  have more : t.isEnd = false := by
    rcases kind with kind | kind | kind | kind | kind <;> exact moreThere kind
  exact .plain (.see seesToken (.whole (.token more rfl rfl rfl (.constant kind))))

theorem formsLiteral (role : c = .expression ∨ c = .key) (kind : isLiteral t.kind) :
    FormsAt (some t) literal (IsNode c) := by
  have more : t.isEnd = false := by
    rcases kind with kind | kind | kind <;> exact moreThere kind
  exact .plain (.see seesToken (.whole (.token more rfl rfl rfl (.literal role kind))))

/-! ### Types -/

theorem Dropped.append {row more : List Part} (one : Dropped row) (two : Dropped more) :
    Dropped (row ++ more) := by
  obtain ⟨ts, rfl⟩ := one
  obtain ⟨us, rfl⟩ := two
  exact ⟨ts ++ us, List.map_append.symm⟩

theorem Dropped.one (t : Token) : Dropped [.skipped t] := ⟨[t], rfl⟩

/- Tokens of a type, and at least one if `some` holds. -/
structure Passed (some : Prop) (row : List Part) : Prop where
  dropped : Dropped row
  filled : some → row ≠ []

theorem formsTypeHead : Forms typeHead fun head row => Passed ((head != "") = true) row := by
  refine .plain fun t => .see seesToken (.branch (fun named => .skip (namedMore named) ?_)
    fun _ => .done fun _ => ⟨⟨[], rfl⟩, by simp⟩)
  exact .ends (.dropped (.still fun _ => readsDotted _)) fun _ _ _ rest =>
    ⟨(Dropped.one t).append rest, fun _ => List.cons_ne_nil _ _⟩

theorem formsTypeScan (head : String) : Forms (loop typeStep ⟨[], .unknown, head != "", []⟩)
    fun scan row => Passed (scan.started = true ∧ (head != "") = false) row := by
  refine .still (I := fun scan row => Passed (scan.started = true ∧ (head != "") = false) row)
    (fun start scan row => ?_) (fun _ _ => id) ⟨⟨[], rfl⟩, fun ⟨yes, no⟩ => ?_⟩
  · exact .know fun t => .see seesToken (.branch (fun _ => .done id) fun more =>
      .skip (typeMore more) (.done fun passed => ⟨passed.dropped.append (.one t), fun _ => by simp⟩))
  · exact absurd (no.symm.trans yes) Bool.noConfusion

theorem formsTypeReference : Forms typeReference (IsNode .type) := by
  have node {m n : List Part} (start : Nat) (r : TypeReference) (head : String) (scan : TypeScan) :
      Going start none [] (m ++ n) (scan.started = true ∧ Passed ((head != "") = true) m ∧
        Passed (scan.started = true ∧ (head != "") = false) n)
        (do addNode (.holding .typeReference start (max (← prevStop) start) (.typeReference r)))
        (IsNode .type) := by
    refine .add (fun _ => rfl) (fun _ => .refl _) (fun _ => nofun)
      (fun _ ⟨started, first, next⟩ => ?_) fun i => .mk i
    obtain ⟨ts, same⟩ := first.dropped.append next.dropped
    rw [same]
    refine .type r fun none => ?_
    rw [none, List.map_nil] at same
    obtain ⟨empty, empty'⟩ := List.append_eq_nil_iff.mp same
    cases named : head != "" with
    | true => exact first.filled named empty
    | false => exact next.filled ⟨started, named⟩ empty'
  refine .begins fun t => .first formsTypeHead fun head m => .pass (formsTypeScan _) fun scan n => ?_
  refine .branch (fun started => .learn (node _ _ head scan) fun facts => ⟨started, facts⟩) fun _ =>
    .report (.learn (node _ _ head scan) False.elim)

theorem formsOptionalType : Forms optionalType (Behind (.punct .colon) .type) :=
  .plain fun _ => .accept
    (fun _ there => .ends formsTypeReference fun _ _ _ ⟨i⟩ => .there there)
    fun _ => .pure (List.nil_sublist _) fun _ => .absent

/-! ### Lists -/

/- The answer is a node of one of the categories. -/
inductive IsOneOf (cs : List Category) : Slot → List Part → Prop where
  | mk {c : Category} {i : NodeId} (own : c ∈ cs) : IsOneOf cs (some i) [.node c i]

theorem IsNode.among {cs : List Category} (own : c ∈ cs) :
    ∀ x m, IsNode c x m → IsOneOf cs x m := by
  rintro _ _ ⟨i⟩
  exact .mk own

section
variable {cs : List Category} {items : List Slot} {x : Slot} {m n : List Part} {comma : Bool}
  {N : Slot → List Part → Prop}

theorem Led.item (led : Led cs items row) (item : IsOneOf cs x m)
    (there : Maybe (.punct .comma) true n) : Led cs (x :: items) (row ++ m ++ n) := by
  cases item with
  | mk own => cases there with
    | there kind => simpa using Led.next led own kind

theorem Listed.item (led : Led cs items row) (item : IsOneOf cs x m)
    (there : Maybe (.punct .comma) comma n) : Listed cs (x :: items) (row ++ m ++ n) := by
  cases comma with
  | true => exact .led (led.item item there)
  | false =>
    cases item with
    | mk own =>
      cases there
      rw [List.append_nil]
      exact .last led own

/- An item, and the comma that leads on to the next one. -/
theorem goesItem (own : ∀ x m, N x m → IsOneOf cs x m) :
    Going start none (refs items ++ refs x) (row ++ m) (Led cs items row ∧ N x m)
    (do if ← accept (.punct .comma) then return .yield (x :: items)
        else return .done (x :: items) : Parse (ForInStep (List Slot)))
    (Round (Led cs) (Listed cs)) :=
  .accept
    (fun _ kind => .pure (by simp) fun ⟨led, item⟩ => led.item (own _ _ item) (.there kind))
    fun _ => .pure (by simp) fun ⟨led, item⟩ => by
      rw [← List.append_nil (row ++ m)]
      exact Listed.item led (own _ _ item) .absent

/- The same where the next item has to begin elsewhere. -/
theorem goesFurther (own : ∀ x m, N x m → IsOneOf cs x m) (before : Nat) :
    Going start none (refs items ++ refs x) (row ++ m) (Led cs items row ∧ N x m)
    (do if (← accept (.punct .comma)) && (← here) != before then return .yield (x :: items)
        else return .done (x :: items) : Parse (ForInStep (List Slot)))
    (Round (Led cs) (Listed cs)) := by
  refine .pass (formsAccept _) fun comma n => .pass formsHere fun pos _ =>
    .branch (fun goes => .pure (by simp) ?_) fun _ => .pure (by simp) ?_
  · rintro ⟨⟨⟨led, item⟩, there⟩, rfl⟩
    rw [(Bool.and_eq_true_iff.mp goes).1] at there
    rw [List.append_nil]
    exact led.item (own _ _ item) there
  · rintro ⟨⟨⟨led, item⟩, there⟩, rfl⟩
    rw [List.append_nil]
    exact Listed.item led (own _ _ item) there

end

/- A list from its opening to its closing bracket. -/
theorem goesBracketed {opening closing : TokenKind} [closing.Proper] {cs : List Category}
    {p : Parse (List Slot)} (h : Forms p (Listed cs)) (listStart : Nat) :
    Going start none [] row (IsToken opening () row)
      (do
        let items ← p
        expect closing
        listFrom listStart items.reverse) (Bracketed opening closing cs) := by
  refine .next h fun items m => .pass (formsExpect _) fun _ n => .items listStart ?_
  rintro l same ⟨⟨⟨opens⟩, listed⟩, ⟨closes⟩⟩
  rw [← same] at listed
  exact .mk opens listed closes

theorem formsBracketed {opening closing : TokenKind} [opening.Proper] [closing.Proper]
    {cs : List Category} {p : Parse (List Slot)} (h : Forms p (Listed cs)) :
    Forms
      (do
        let start ← here
        expect opening
        let items ← p
        expect closing
        listFrom start items.reverse) (Bracketed opening closing cs) :=
  .begins fun _ => .pass (formsExpect _) fun _ _ => .learn (goesBracketed h _) And.right

theorem goesTypeRow (start : Nat) (types : List Slot) (row : List Part) :
    Going start none (refs types) row (Led [.type] types row) (typeRowStep types)
      (Round (Led [.type]) (Listed [.type])) :=
  .know fun _ => .see seesKind (.branch (fun _ => .kept .led) fun _ => .see seesHere
    (.next formsTypeReference fun _ _ => goesFurther (IsNode.among (by simp)) _))

theorem formsTypeArguments :
    Forms typeArguments (Bracketed (.punct .less) (.punct .greater) [.type]) :=
  formsBracketed (.collect goesTypeRow (fun _ _ => .led) .nil)

theorem formsDropTypeArguments : Forms dropTypeArguments fun _ row => Dropped row :=
  .dropped readsDropTypeArguments

/-! ### Operators -/

theorem precedenceFree (k : TokenKind) (forbidden : Bool) : precedence k forbidden ≤ precedence k false := by
  cases forbidden with
  | false => exact Nat.le_refl _
  | true => unfold precedence; split <;> simp

theorem goesComma (h : SubRules sub) (start : Nat) (left : Slot) (row : List Part) :
    Going start none (refs left) row (IsNode .expression left row) (commaStep sub start left)
      (Round (IsNode .expression) (IsNode .expression)) := by
  refine .accept (fun t there => .next h.assignment fun right more =>
    .last (.finish .expression (by simp) ?_ nofun) fun _ _ => .kept id) fun _ => .kept id
  rintro ⟨⟨l⟩, ⟨r⟩⟩
  rw [← there]
  exact .binary (by rw [there]; rfl)

theorem formsExpression (h : SubRules sub) : Forms (expression sub) (IsNode .expression) :=
  .begins fun _ => .first h.assignment fun _ _ => .loop (goesComma h _) (fun _ _ => id) id

theorem goesBinary (h : SubRules sub) (above start : Nat) (left : Slot) (row : List Part) :
    Going start none (refs left) row (IsNode .expression left row) (binaryStep sub above start left)
      (Round (IsNode .expression) (IsNode .expression)) := by
  refine .know fun t => .see seesKind (.state fun s => .branch (fun _ => .kept id) fun binds =>
    .advance (bindsMore binds) (.next (h.binary _) fun right more =>
      .last (.finish .expression (by simp) ?_ nofun) fun _ _ => .kept id))
  rintro ⟨⟨l⟩, ⟨r⟩⟩
  have some : 0 < precedence t.kind false :=
    Nat.lt_of_lt_of_le (Nat.lt_of_le_of_lt (Nat.zero_le above) (Nat.lt_of_not_le binds))
      (precedenceFree _ _)
  exact .binary (by simp [joins, some])

theorem formsBinary (h : SubRules sub) (above : Nat) :
    Forms (binaryExpression sub above) (IsNode .expression) :=
  .begins fun _ => .first h.unary fun _ _ => .loop (goesBinary h above _) (fun _ _ => id) id

theorem goesAssignmentRest (h : SubRules sub) (start : Nat) (left : Slot) (row : List Part) :
    Going start none (refs left) row (IsNode .expression left row) (assignmentRest sub start left)
      (IsNode .expression) := by
  refine .know fun t => .see seesKind (.branch (fun assigns => ?_) fun _ => .branch (fun asks => ?_)
    fun _ => .kept id)
  · have more : t.isEnd = false := by
      refine beq_eq_false_iff_ne.mpr fun ends => ?_
      rw [ends] at assigns
      cases assigns
    refine .advance more (.next h.assignment fun _ _ => .finish .expression (by simp) ?_ nofun)
    rintro ⟨⟨l⟩, ⟨r⟩⟩
    exact .binary (by simp [joins, assigns])
  · have kind := beq_iff_eq.mp asks
    refine .advance (moreThere kind) (.next (.inForbidden _ h.assignment) fun _ _ =>
      .pass (formsExpect _) fun _ _ => .next h.assignment fun _ _ => .finish .expression (by simp) ?_ nofun)
    rintro ⟨⟨⟨⟨l⟩, ⟨a⟩⟩, ⟨parts⟩⟩, ⟨b⟩⟩
    exact .conditional kind parts

theorem formsYieldOperand (h : SubRules sub) : Forms (yieldOperand sub) Yielded := by
  refine .plain fun _ => .see seesAfterLineBreak (.branch
    (fun _ => .pure (List.nil_sublist _) fun _ => .absent) fun _ => .accept
      (fun t star => .ends h.assignment ?_) fun _ => .see seesKind (.branch
        (fun _ => .ends h.assignment ?_) fun _ => .pure (List.nil_sublist _) fun _ => .absent))
  · rintro _ _ _ ⟨x⟩
    exact .all star
  · rintro _ _ _ ⟨x⟩
    exact .plain

theorem formsYield (h : SubRules sub) (word : t.kind = .word .yieldWord) :
    FormsAt (some t) (yieldExpression sub) (IsNode .expression) :=
  .begins (.advance (moreThere word) (.next (formsYieldOperand h) fun _ _ => .finish .expression
    (by simp) (fun ⟨_, value⟩ => .yielded word value) fun _ => ⟨_, _, rfl⟩))

theorem formsSpread (h : SubRules sub) : Forms (spreadElement sub) (IsNode .spread) := by
  refine .begins fun _ => .pass (formsExpect _) fun _ _ => .next h.assignment fun _ _ =>
    .finish .spread (by simp) ?_ nofun
  rintro ⟨⟨_, ⟨mark⟩⟩, ⟨x⟩⟩
  exact .spread mark

/-! ### Accesses and calls -/

theorem goesArgument (h : SubRules sub) (start : Nat) (args : List Slot) (row : List Part) :
    Going start none (refs args) row (Led [.expression, .spread] args row) (argumentStep sub args)
      (Round (Led [.expression, .spread]) (Listed [.expression, .spread])) :=
  .know fun _ => .see seesKind (.branch (fun _ => .kept .led) fun _ => .branch
    (fun _ => .next (formsSpread h) fun _ _ => goesItem (IsNode.among (by simp)))
    fun _ => .next h.assignment fun _ _ => goesItem (IsNode.among (by simp)))

theorem formsArguments (h : SubRules sub) : Forms (arguments sub) Arguments :=
  formsBracketed (.inForbidden _ (.collect (goesArgument h) (fun _ _ => .led) .nil))

/- A callee, and `?.` behind it. -/
inductive Called (optional : Bool) : Slot → List Part → Prop where
  | mk {x q} (asks : Maybe (.punct .questionDot) optional q) :
      Called optional (some x) (.node .expression x :: q)

theorem IsNode.called {x : Slot} (node : IsNode .expression x row) : Called false x row := by
  cases node
  exact .mk .absent

theorem goesCallRest (h : SubRules sub) {optional : Bool} (callee : Slot) :
    Going start known (refs callee) row (Called optional callee row) (callRest sub start callee)
      (IsNode .expression) := by
  have rest (types : Option NodeList) (m : List Part) : Going start none (refs callee ++ refs types)
      (row ++ m) (Called optional callee row ∧ TypeArguments types m)
      (arguments sub >>= fun args => finish .callExpression start (.call ⟨callee, types, some args⟩))
      (IsNode .expression) := by
    refine .next (formsArguments h) fun args n => .finish .expression (by simp) ?_ nofun
    rintro ⟨⟨⟨asks⟩, generic⟩, given⟩
    simpa using Made.call asks generic given
  refine .anywhere (.know fun t => .see (seesIsAt _) (.branch (fun less => ?_) fun _ => ?_))
  · exact .next (.map (f := some) (fun _ => rfl) formsTypeArguments fun _ _ => .there) rest
  · have plain := rest none []
    rw [List.append_nil] at plain
    exact .anywhere (.learn (.drop plain (by simp)) fun called => ⟨called, .absent⟩)

theorem goesFinishAccess {kind : NodeKind} (plain : kind.isSuspension = false) (a : Access)
    (kids : ((Payload.access a).childrenAs kind).Sublist held)
    (made : facts → Made .expression kind (some (.access a)) row) :
    Going start known held row facts (finishAccess kind start a) (IsNode .expression) :=
  .add (fun _ => rfl) (fun _ => kids) (fun _ own => Bool.noConfusion (plain.symm.trans own))
    (fun _ => made) fun i => .mk i

theorem goesPropertyRest {optional : Bool} (object : Slot)
    (mark : t.kind = if optional then .punct .questionDot else .punct .dot) :
    Going start known (refs object) (row ++ [.token t]) (IsNode .expression object row)
      (propertyRest start object optional) (IsNode .expression) := by
  refine .next (formsAnyName (.inl rfl)) fun name _ => goesFinishAccess rfl _ (by simp) ?_
  rintro ⟨⟨x⟩, ⟨n⟩⟩
  exact .property mark

theorem goesElementRest (h : SubRules sub) {optional : Bool} (object : Slot) :
    Going start known (refs object) row (Called optional object row)
      (elementRest sub start object optional) (IsNode .expression) := by
  refine .pass (formsExpect _) fun _ _ => .next (.inForbidden _ (formsExpression h)) fun _ _ =>
    .pass (formsExpect _) fun _ _ => goesFinishAccess rfl _ (by simp) ?_
  rintro ⟨⟨⟨⟨asks⟩, ⟨opens⟩⟩, ⟨n⟩⟩, ⟨closes⟩⟩
  simpa using Made.element asks opens closes

theorem goesOptionalRest (h : SubRules sub) (object : Slot) (mark : t.kind = .punct .questionDot) :
    Going start none (refs object) (row ++ [.token t]) (IsNode .expression object row)
      (optionalRest sub start object) (IsNode .expression) := by
  have called : IsNode .expression object row → Called true object (row ++ [.token t]) := by
    rintro ⟨x⟩
    exact .mk (.there mark)
  have call {known : Option Token} : Going start known (refs object) (row ++ [.token t])
      (IsNode .expression object row)
      (do
        let call ← callRest sub start object
        addFlags call .optionalChain
        return call) (IsNode .expression) := by
    refine .last (.learn (goesCallRest h object) called) fun call _ =>
      .pass (formsAddFlags _ _) fun _ _ => .kept ?_
    rintro ⟨node, rfl⟩
    simpa using node
  refine .know fun u => .see seesKind ?_
  split
  · exact call
  · exact call
  · exact .learn (goesElementRest h object) called
  · exact goesPropertyRest object mark

theorem goesChain (h : SubRules sub) (start : Nat) (object : Slot) (row : List Part) :
    Going start none (refs object) row (IsNode .expression object row) (chainStep sub start object)
      (Round (IsNode .expression) (IsNode .expression)) := by
  refine .know fun t => .see seesKind ?_
  split
  · exact .advance (moreThere ‹_›) (.last (goesPropertyRest object ‹_›) fun _ _ => .kept id)
  · exact .advance (moreThere ‹_›) (.last (goesOptionalRest h object ‹_›) fun _ _ => .kept id)
  · exact .last (.learn (goesElementRest h object) IsNode.called) fun _ _ => .kept id
  · exact .last (.learn (goesCallRest h object) IsNode.called) fun _ _ => .kept id
  · exact .peek peeksGenericCall fun _ _ => .branch
      (fun _ => .last (.learn (goesCallRest h object) IsNode.called) fun _ _ => .kept id)
      fun _ => .kept id
  · rename_i mark
    refine .see seesAfterLineBreak (.branch (fun _ => .kept id) fun _ =>
      .advance (moreThere mark) (.last (.finish .expression (by simp) ?_ nofun) fun _ _ => .kept id))
    rintro ⟨x⟩
    exact .nonNull mark
  · exact .kept id

theorem goesCallChain (h : SubRules sub) (object : Slot) :
    Going start known (refs object) row (IsNode .expression object row) (callChain sub start object)
      (IsNode .expression) :=
  .loop (goesChain h start) (fun _ _ => id) id

/-! ### Functions -/

theorem formsBindingName (h : SubRules sub) : Forms (bindingName sub) (IsNode .binding) := by
  refine .plain fun t => .see seesKind ?_
  split
  · exact .whole (.know (h.arrayLiteral (.inr rfl)))
  · exact .whole (.know (h.objectLiteral (.inr rfl)))
  · rename_i word
    exact .see seesToken (.whole (.token (moreThere word) rfl rfl rfl (.bound word)))
  · exact .whole (.know (formsName (.inr (.inl rfl))))

theorem formsInitializer (h : SubRules sub) :
    Forms (initializer sub) (Behind (.punct .equal) .expression) :=
  .plain fun _ => .accept
    (fun _ there => .ends h.assignment fun _ _ _ ⟨i⟩ => .there there)
    fun _ => .pure (List.nil_sublist _) fun _ => .absent

theorem formsModifiers : Forms skipParameterModifiers fun _ row => Marks row := by
  refine .still (I := fun _ row => Marks row) (fun start x row => ?_) (fun _ _ => id) .nil
  refine .know fun t => .see seesToken (.branch (fun word => ?_) fun _ => .done id)
  have kind := beq_iff_eq.mp (Bool.and_eq_true_iff.mp word).1
  exact .peek (peeksParameterModifier (moreThere kind)) fun _ _ =>
    .branch (fun _ => .advance (moreThere kind) (.done fun marks => .next marks (.inl kind)))
      fun _ => .done id

theorem formsParameter (h : SubRules sub) : Forms (parameter sub) (IsNode .parameter) := by
  refine .begins fun _ => .pass formsModifiers fun _ _ => .pass (formsAccept _) fun rest _ =>
    .next (formsBindingName h) fun name _ => .pass (formsAccept _) fun asks _ =>
    .next formsOptionalType fun type _ => .next (formsInitializer h) fun init _ =>
      .finish .parameter (by simp) ?_ nofun
  rintro ⟨⟨⟨⟨⟨⟨_, marked⟩, rests⟩, ⟨n⟩⟩, asks⟩, typed⟩, initial⟩
  simpa using Made.parameter (p := ⟨some n, type, init, _, _⟩) marked rfl rests asks typed initial

theorem goesParameter (h : SubRules sub) (start : Nat) (params : List Slot) (row : List Part) :
    Going start none (refs params) row (Led [.parameter] params row) (parameterStep sub params)
      (Round (Led [.parameter]) (Listed [.parameter])) :=
  .know fun _ => .see seesKind (.branch (fun _ => .kept .led) fun _ => .see seesHere
    (.next (formsParameter h) fun _ _ => goesFurther (IsNode.among (by simp)) _))

theorem formsParameters (h : SubRules sub) : Forms (parameters sub) Parameters :=
  formsBracketed (.collect (goesParameter h) (fun _ _ => .led) .nil)

/- A node of which marks are known. -/
theorem goesMarked (c : Category) {kind : NodeKind} {p : Payload} {flags : NodeFlags}
    (plain : kind.isSuspension = false) (kids : (p.childrenAs kind).Sublist held)
    (made : facts → Made c kind (some p) row) :
    Going start known held row facts
      (do
        let node ← finish kind start p
        addFlags node flags
        return node) (IsNode c) := by
  refine .last (.finish c kids made fun own => Bool.noConfusion (plain.symm.trans own)) fun _ _ =>
    .pass (formsAddFlags _ _) fun _ _ => .kept ?_
  rintro ⟨node, rfl⟩
  rwa [List.append_nil]

theorem goesMethodRest (h : SubRules sub) {kind : NodeKind} {name : Slot} (flags : NodeFlags)
    (plain : kind.isSuspension = false) (headed : facts → Headed c kind name row) :
    Going start known (refs name) row facts (methodRest sub kind start name flags) (IsNode c) := by
  refine .pass formsDropTypeArguments fun _ types => .next (formsParameters h) fun params _ =>
    .next formsOptionalType fun type _ => .know fun _ => .see (seesIsAt _) (.branch (fun _ => ?_)
      fun _ => ?_)
  · refine .next h.block fun body _ => goesMarked c plain (by simp) ?_
    rintro ⟨⟨⟨⟨known, dropped⟩, given⟩, result⟩, ⟨x⟩⟩
    have rested := Rested.mk (f := ⟨name, params, type, some x⟩) dropped given result .block
    simpa using Made.function (headed known) rested
  · refine .pass formsEndStatement fun _ _ => goesMarked c plain (by simp) ?_
    rintro ⟨⟨⟨⟨known, dropped⟩, given⟩, result⟩, _, semicolon⟩
    have rested := Rested.mk (f := ⟨name, params, type, none⟩) dropped given result (.absent semicolon)
    simpa using Made.function (headed known) rested

theorem Marks.with {m : List Part} {k : TokenKind} {there : Bool} (marks : Marks row)
    (more : Maybe k there m) (mark : isMark k) : Marks (row ++ m) := by
  cases more with
  | absent => rwa [List.append_nil]
  | there kind => exact .next marks (kind ▸ mark)

theorem IsToken.there {k : TokenKind} (is : IsToken k () row) : Maybe k true row := by
  obtain ⟨kind⟩ := is
  exact .there kind

theorem formsFunctionMarks : Forms functionMarks fun _ row => Marks row := by
  have rest {known : Option Token} {row : List Part} (start : Nat) (async : Bool) :
      Going start known [] row (Marks row)
        (do
          expect (.word .functionWord)
          let star ← accept (.punct .asterisk)
          return (if async then NodeFlags.asyncFlag else 0) ||| (if star then NodeFlags.generator else 0))
        fun _ row => Marks row :=
    .pass (formsExpect _) fun _ _ => .pass (formsAccept _) fun _ _ => .done fun ⟨⟨marks, word⟩, star⟩ =>
      (marks.with word.there (.inr (.inl rfl))).with star (.inr (.inr rfl))
  refine .plain fun t => .see (seesContextual _) (.branch (fun async => ?_) fun _ =>
    .learn (rest _ _) fun _ => .nil)
  have kind := beq_iff_eq.mp (Bool.and_eq_true_iff.mp async).1
  exact .advance (moreThere kind) (.learn (rest _ _) fun _ => .next .nil (.inl kind))

theorem formsFunctionExpression (h : SubRules sub) :
    Forms (functionExpression sub) (IsNode .expression) := by
  refine .begins fun t => .pass formsFunctionMarks fun flags row => .know fun _ => .see (seesIsAt _)
    (.branch (fun _ => .next (formsName (.inr (.inl rfl))) fun _ _ => goesMethodRest h _ rfl ?_)
      fun _ => .given ?_)
  · rintro ⟨⟨_, marks⟩, ⟨x⟩⟩
    exact .named marks
  · show Going _ _ (refs (none : Slot)) _ _ _ _
    exact goesMethodRest h _ rfl fun ⟨_, marks⟩ => .anonymous marks

theorem formsBareParameter : Forms bareParameter ArrowParameters := by
  refine .begins fun t => .first (formsName (.inr (.inl rfl))) fun name _ =>
    .last (.finish .parameter (by simp) ?_ nofun) fun param row => ?_
  · rintro ⟨n⟩
    simpa using Made.parameter (p := ⟨some n, none, none, false, false⟩) .nil rfl .absent .absent
      .absent .absent
  · have only : Going t.start none (refs [param]) row (IsNode .parameter param row)
        (listFrom t.start [param].reverse) ArrowParameters := by
      refine .items _ ?_
      rintro l same ⟨x⟩
      exact .bare (by rw [← List.reverse_reverse l.items, same]; rfl)
    exact .drop only (by simp)

theorem formsArrowParameters (h : SubRules sub) : Forms (arrowParameters sub) ArrowParameters :=
  .plain fun _ => .see (seesIsAt _) (.branch (fun _ => .whole (.know formsBareParameter))
    fun _ => .pass formsDropTypeArguments fun _ _ => .ends (formsParameters h)
      fun _ _ ⟨_, dropped⟩ given => .bracketed dropped given)

theorem goesArrowRest (h : SubRules sub) {marks m : List Part} (async : Bool) (params : NodeList) :
    Going start none (refs params) (marks ++ m) (Marks marks ∧ ArrowParameters params m)
      (arrowRest sub start async params) (IsNode .expression) := by
  refine .next formsOptionalType fun type _ => .pass (formsExpect _) fun _ _ => .know fun _ =>
    .see (seesIsAt _) (.branch (fun _ => .next h.block fun _ _ => goesMarked .expression rfl (by simp) ?_)
      fun _ => .next h.assignment fun _ _ => goesMarked .expression rfl (by simp) ?_)
  · rintro ⟨⟨⟨⟨marked, given⟩, result⟩, ⟨mark⟩⟩, ⟨x⟩⟩
    simpa using Made.arrow (f := ⟨none, params, type, some x⟩) marked rfl given result mark (.inl rfl) rfl
  · rintro ⟨⟨⟨⟨marked, given⟩, result⟩, ⟨mark⟩⟩, ⟨x⟩⟩
    simpa using Made.arrow (f := ⟨none, params, type, some x⟩) marked rfl given result mark (.inr rfl) rfl

theorem formsArrowFunction (h : SubRules sub) : Forms (arrowFunction sub) (IsNode .expression) := by
  have rest {known : Option Token} {row : List Part} (start : Nat) (async : Bool) :
      Going start known [] row (Marks row)
        (do
          let params ← arrowParameters sub
          arrowRest sub start async params) (IsNode .expression) :=
    .next (formsArrowParameters h) fun _ _ => goesArrowRest h _ _
  refine .begins fun _ => .see (seesContextual _) (.branch (fun async => ?_) fun _ =>
    .given (.learn (rest _ _) fun _ => .nil))
  have kind := beq_iff_eq.mp (Bool.and_eq_true_iff.mp async).1
  exact .peek (peeksAsyncArrow (moreThere kind)) fun marked _ => .branch
      (fun _ => .advance (moreThere kind) (.learn (rest _ _) fun _ => .next .nil (.inl kind)))
      fun _ => .learn (rest _ _) fun _ => .nil

/-! ### Literals -/

theorem goesElement (h : SubRules sub) (start : Nat) (items : List Slot) (row : List Part) :
    Going start none (refs items) row (Led [.expression, .spread, .hole] items row)
      (elementStep sub items)
      (Round (Led [.expression, .spread, .hole]) (Listed [.expression, .spread, .hole])) := by
  refine .know fun t => .see seesKind ?_
  split
  · exact .kept .led
  · exact .kept .led
  · rename_i comma
    exact .see seesHere (.hole fun _ _ => .advance (moreThere comma) (.pure (by simp)
      fun ⟨led, hole⟩ => led.item (hole.among (by simp)) (.there comma)))
  · exact .branch (fun _ => .next (formsSpread h) fun _ _ => goesItem (IsNode.among (by simp)))
      fun _ => .next h.assignment fun _ _ => goesItem (IsNode.among (by simp))

/- A list from its opening bracket on. -/
inductive Opened (opening : TokenKind) (cs : List Category) : NodeList → List Part → Prop where
  | mk {l : NodeList} {row : List Part} {o : Token} (opens : o.kind = opening)
      (listed : Listed cs l.items.reverse row) : Opened opening cs l (.token o :: row)

theorem formsElements {opening closing : TokenKind} [opening.Proper] [closing.Proper] {cs : List Category} {kind : NodeKind}
    {p : Parse (List Slot)} (h : Forms p (Listed cs))
    (made : ∀ l row, Bracketed opening closing cs l row → Made c kind (some (.elements l)) row)
    (plain : kind.isSuspension = false) :
    Forms
      (do
        let start ← here
        expect opening
        let listStart ← here
        let items ← p
        let list ← listFrom listStart items.reverse
        expect closing
        finish kind start (.elements list)) (IsNode c) := by
  refine .begins fun _ => .pass (formsExpect _) fun _ _ => .pass formsHere fun listStart _ =>
    .next h fun items _ => .last (.items (D := Opened opening cs) listStart ?_) fun l _ =>
    .pass (formsExpect _) fun _ _ => .finish c (by simp) ?_ fun own =>
      Bool.noConfusion (plain.symm.trans own)
  · rintro l same ⟨⟨⟨_, ⟨opens⟩⟩, rfl⟩, listed⟩
    rw [← same] at listed
    simpa using Opened.mk opens listed
  · rintro ⟨⟨opens, listed⟩, ⟨closes⟩⟩
    exact made _ _ (.mk opens listed closes)

theorem formsArrayLiteral (h : SubRules sub) (role : c = .expression ∨ c = .binding) :
    Forms (arrayLiteral sub) (IsNode c) :=
  formsElements (.collect (goesElement h) (fun _ _ => .led) .nil) (fun _ _ => .array role) rfl

theorem formsPropertyName (h : SubRules sub) : Forms (propertyName sub) (IsNode .key) := by
  refine .plain fun t => .see seesKind ?_
  split
  · exact .whole (formsLiteral (.inr rfl) (.inr (.inl ‹_›)))
  · exact .whole (formsLiteral (.inr rfl) (.inl ‹_›))
  · rename_i opens
    refine .see seesHere (.advance (moreThere opens) (.next h.assignment fun _ _ =>
      .pass (formsExpect _) fun _ _ => .finish .key (by simp) ?_ nofun))
    rintro ⟨⟨_, ⟨x⟩⟩, ⟨closes⟩⟩
    exact .computed opens closes
  · exact .whole (.know (formsAnyName (.inr rfl)))

theorem formsMarks (modifiers : List String) :
    Forms (memberMarks modifiers) fun _ row => Marks row := by
  have words : Forms (memberModifiers modifiers) fun _ row => Marks row := by
    refine .still (I := fun _ row => Marks row) (fun _ _ _ => ?_) (fun _ _ => id) .nil
    exact .know fun _ => .peek (peeksModifies modifiers) fun _ word => .branch
      (fun yes => .see seesToken (.advance (moreThere (word yes))
        (.done fun marks => .next marks (.inl (word yes)))))
      fun _ => .done id
  exact .plain fun _ => .pass words fun _ _ => .accept
    (fun _ star => .done fun ⟨_, marks⟩ => .next marks (.inr (.inr star)))
    fun _ => .done And.right

theorem formsObjectMember (h : SubRules sub) :
    Forms (objectMember sub) (IsOneOf [.member, .spread]) := by
  refine .begins fun _ => .see (seesIsAt _) (.branch
    (fun _ => .whole (.know (.weaken (formsSpread h) (IsNode.among (by simp)))))
    fun _ => .weaken ?_ (IsNode.among (c := .member) (by simp)))
  refine .pass (formsMarks _) fun _ marks => .next (formsPropertyName h) fun name m => .pass
    (formsSeen seesStartsMethod) fun _ _ => .branch (fun _ => goesMethodRest h _ rfl ?_) fun _ =>
      .accept
        (fun _ mark => .next h.assignment fun _ _ => .finish .member (by simp) ?_ nofun)
        fun _ => .next (formsInitializer h) fun init _ => .finish .member (by simp) ?_ nofun
  · rintro ⟨⟨⟨_, marked⟩, ⟨n⟩⟩, rfl⟩
    rw [List.append_nil]
    exact .method marked
  · rintro ⟨⟨⟨⟨_, marked⟩, ⟨n⟩⟩, rfl⟩, ⟨x⟩⟩
    simpa using Made.assigned marked mark
  · rintro ⟨⟨⟨⟨_, marked⟩, ⟨n⟩⟩, rfl⟩, initial⟩
    simpa using Made.shorthand marked initial

theorem goesObject (h : SubRules sub) (start : Nat) (items : List Slot) (row : List Part) :
    Going start none (refs items) row (Led [.member, .spread] items row) (objectStep sub items)
      (Round (Led [.member, .spread]) (Listed [.member, .spread])) :=
  .know fun _ => .see seesKind (.branch (fun _ => .kept .led) fun _ => .see seesHere
    (.next (formsObjectMember h) fun _ _ => goesFurther (fun _ _ => id) _))

theorem formsObjectLiteral (h : SubRules sub) (role : c = .expression ∨ c = .binding) :
    Forms (objectLiteral sub) (IsNode c) :=
  formsElements (.collect (goesObject h) (fun _ _ => .led) .nil) (fun _ _ => .object role) rfl

theorem formsParenthesized (h : SubRules sub) : Forms (parenthesized sub) (IsNode .expression) := by
  refine .begins fun _ => .pass (formsExpect _) fun _ _ =>
    .next (.inForbidden _ (formsExpression h)) fun _ _ => .pass (formsExpect _) fun _ _ =>
    .finish .expression (by simp) ?_ nofun
  rintro ⟨⟨⟨_, ⟨opens⟩⟩, ⟨x⟩⟩, ⟨closes⟩⟩
  exact .parenthesized opens closes

theorem formsPrimary (h : SubRules sub) : Forms (primary sub) (IsNode .expression) := by
  refine .plain fun t => .see seesKind ?_
  split
  · exact .peek peeksAsync fun _ _ => .branch
      (fun _ => .whole (.know (formsFunctionExpression h)))
      fun _ => .whole (.know (formsName (.inl rfl)))
  iterate 5 exact .whole (formsConstant (by simp [isConstant, *]))
  iterate 3 exact .whole (formsLiteral (.inl rfl) (by simp [isLiteral, *]))
  · exact .whole (.know (formsParenthesized h))
  · exact .whole (.know (formsArrayLiteral h (.inl rfl)))
  · exact .whole (.know (formsObjectLiteral h (.inl rfl)))
  · exact .whole (.know (formsFunctionExpression h))
  · exact .report .missing

/-! ### Operators before and after -/

theorem goesConstructor (h : SubRules sub) (start : Nat) (object : Slot) (row : List Part) :
    Going start none (refs object) row (IsNode .expression object row)
      (constructorStep sub start object) (Round (IsNode .expression) (IsNode .expression)) := by
  refine .know fun t => .see seesKind ?_
  split
  · exact .advance (moreThere ‹_›) (.last (goesPropertyRest object ‹_›) fun _ _ => .kept id)
  · exact .last (.learn (goesElementRest h object) IsNode.called) fun _ _ => .kept id
  · exact .kept id

/- What `new` constructs begins behind the word. -/
def constructed (sub : SubParse) : Parse Slot := do
  let start ← here
  let head ← constructorHead sub
  leave
  constructorChain sub start head

theorem newParts (sub : SubParse) : newExpression sub = (do
    let start ← here
    expect (.word .newWord)
    if ← enter then
      let callee ← constructed sub
      constructorRest sub start callee
    else missing) := rfl

theorem formsConstructed (h : SubRules sub) : Forms (constructed sub) (IsNode .expression) := by
  have head : Forms (constructorHead sub) (IsNode .expression) := .plain fun _ =>
    .see (seesIsAt _) (.branch (fun _ => .whole (.know h.newExpression))
      fun _ => .whole (.know (formsPrimary h)))
  exact .begins fun _ => .first head fun _ _ => .leave (.loop (goesConstructor h _) (fun _ _ => id) id)

theorem goesConstructorRest (h : SubRules sub) (callee : Slot) {w m : List Part} :
    Going start known (refs callee) (w ++ m)
      (IsToken (.word .newWord) () w ∧ IsNode .expression callee m)
      (constructorRest sub start callee) (IsNode .expression) := by
  have last (types : Option NodeList) (n : List Part) : Going start none (refs callee ++ refs types)
      (w ++ m ++ n)
      ((IsToken (.word .newWord) () w ∧ IsNode .expression callee m) ∧ TypeArguments types n)
      (do
        let args ← if ← isAt (.punct .openParen) then some <$> arguments sub else pure none
        finish .newExpression start (.call ⟨callee, types, args⟩)) (IsNode .expression) := by
    have some : Forms (some <$> arguments sub) fun args row => ∃ l, args = some l ∧ Arguments l row :=
      .map (fun _ => rfl) (formsArguments h) fun l _ given => ⟨l, rfl, given⟩
    refine .know fun _ => .see (seesIsAt _) (.branch
      (fun _ => .next some fun args _ => .finish .expression (by simp) ?_ nofun)
      fun _ => .given (.finish .expression (by simp) ?_ nofun))
    · rintro ⟨⟨⟨⟨word⟩, ⟨x⟩⟩, generic⟩, l, rfl, given⟩
      simpa using Made.construction word generic given
    · rintro ⟨⟨⟨word⟩, ⟨x⟩⟩, generic⟩
      simpa using Made.bareConstruction word generic
  have bare {known : Option Token} : Going start known (refs callee) (w ++ m)
      (IsToken (.word .newWord) () w ∧ IsNode .expression callee m)
      (do
        let args ← if ← isAt (.punct .openParen) then some <$> arguments sub else pure none
        finish .newExpression start (.call ⟨callee, none, args⟩)) (IsNode .expression) := by
    have plain := last none []
    rw [List.append_nil] at plain
    exact .anywhere (.learn (.drop plain (by simp)) fun facts => ⟨facts, .absent⟩)
  exact .anywhere (.know fun _ => .see (seesIsAt _) (.branch
    (fun _ => .peek peeksConstructedTypes fun _ _ => .branch
      (fun _ => .next (.map (fun _ => rfl) formsTypeArguments fun _ _ => .there) last)
      fun _ => .given bare)
    fun _ => .given bare))

theorem formsNewExpression (h : SubRules sub) : Forms (newExpression sub) (IsNode .expression) := by
  rw [newParts]
  exact .begins fun _ => .pass (formsExpect _) fun _ _ => .enter
    (.next (formsConstructed h) fun _ _ => .learn (goesConstructorRest h _) fun ⟨⟨_, word⟩, node⟩ =>
      ⟨word, node⟩)
    (.report .missing)

theorem formsLeftHandSide (h : SubRules sub) : Forms (leftHandSide sub) (IsNode .expression) :=
  .begins fun _ => .see (seesIsAt _) (.branch
    (fun _ => .first (formsNewExpression h) fun _ _ => .learn (goesCallChain h _) id)
    fun _ => .first (formsPrimary h) fun _ _ => .learn (goesCallChain h _) id)

theorem formsPostfix (h : SubRules sub) : Forms (postfixExpression sub) (IsNode .expression) := by
  refine .begins fun _ => .first (formsLeftHandSide h) fun _ _ => .know fun t => .see seesKind
    (.see seesAfterLineBreak (.branch (fun marked => ?_) fun _ => .kept id))
  have step : isStep t.kind := by simpa [isStep] using (Bool.and_eq_true_iff.mp marked).1
  have more : t.isEnd = false := by rcases step with step | step <;> exact moreThere step
  refine .advance more (.finish .expression (by simp) ?_ nofun)
  rintro ⟨x⟩
  exact .postfixed step

theorem formsUnary (h : SubRules sub) : Forms (unaryExpression sub) (IsNode .expression) := by
  refine .begins fun t => .see seesKind (.branch (fun prefixed => ?_) fun _ => .branch
    (fun awaits => ?_) fun _ => .whole (.know (formsPostfix h)))
  · have more : t.isEnd = false := by
      refine beq_eq_false_iff_ne.mpr fun ends => ?_
      rw [ends] at prefixed
      cases prefixed
    refine .advance more (.enter (.next h.unary fun _ _ => .leave (.finish .expression (by simp) ?_ nofun))
      (.report .missing))
    rintro ⟨_, ⟨x⟩⟩
    exact .prefixed prefixed
  · have word := beq_iff_eq.mp awaits
    refine .advance (moreThere word) (.enter
      (.next h.unary fun _ _ => .leave (.finish .expression (by simp) ?_ fun _ => ⟨_, _, rfl⟩))
      (.report .missing))
    rintro ⟨_, ⟨x⟩⟩
    exact .awaited word

theorem formsAssignment (h : SubRules sub) : Forms (assignment sub) (IsNode .expression) := by
  refine .nested (.plain fun t => .see (seesIsAt _) (.branch
    (fun yields => .whole (formsYield h (beq_iff_eq.mp yields)))
    fun _ => .peek peeksArrow fun _ _ => .branch (fun _ => .whole (.know (formsArrowFunction h)))
      fun _ => .see seesHere (.first (formsBinary h 0) fun _ _ => ?_))) fun _ _ => .report .missing
  exact .learn (goesAssignmentRest h _ _ _) id

end CallGuard.Phrase
