import CallGuard.Proofs.Parser.Program

/-! Reading comes to its end. A round of a loop takes a token or is the last one, so the bound that
loops carry never stops them, and of the productions that may stand inside one another there are
always enough. A whole text is read up to its end token, each token before it once. -/
namespace CallGuard
namespace Parse

/- Of `n` tokens a reader uses one more than it is given as `spent`, where `more` says so. -/
def Spends {α : Type} (spent : Bool) (known : Option Token) (more : α → Bool) (p : Parse α) : Prop :=
  ∀ n s, s.cursor.Ordered → (∀ t ∈ known, s.cursor.current = t) →
    s.cursor.upcoming.length + spent.toNat ≤ n →
    (p s).2.cursor.Ordered ∧ (p s).2.cursor.upcoming.length + (more (p s).1).toNat ≤ n

/- Whether a loop goes on. -/
def goesOn {σ : Type} : ForInStep σ → Bool
  | .yield _ => true
  | .done _ => false

/- A round goes on only behind a token. -/
def Turns {σ : Type} (step : σ → Parse (ForInStep σ)) : Prop :=
  ∀ x, Spends false none goesOn (step x)

theorem nextSpends {s : ParseState} (ordered : s.cursor.Ordered) (more : s.cursor.current.isEnd = false) :
    s.cursor.next.upcoming.length + 1 = s.cursor.upcoming.length := by
  have lengths := congrArg List.length (takeAhead ordered more)
  simp only [Cursor.ahead, List.length_cons] at lengths
  omega

namespace Spends
variable {α β σ : Type} {spent mid : Bool} {known : Option Token} {t : Token} {more : β → Bool}
  {r : Nat} {a : Progress} {p q : Parse β} {f : α → Parse β}

theorem anywhere (h : Spends spent none more p) : Spends spent known more p :=
  fun n s ordered _ fewer => h n s ordered (unknown s) fewer

theorem know (h : ∀ t, Spends spent (some t) more p) : Spends spent none more p := by
  intro n s ordered _ fewer
  refine h s.cursor.current n s ordered ?_ fewer
  rintro t ⟨⟩
  rfl

theorem see {p : Parse α} {g : Token → α} (sees : Sees p g)
    (rest : Spends spent (some t) more (f (g t))) : Spends spent (some t) more (p >>= f) := by
  intro n s ordered there fewer
  obtain rfl := there t rfl
  rw [bindAt, sees s]
  exact rest n s ordered there fewer

/- A step that stays where it is. -/
theorem stay {p : Parse α} (same : ∀ s, (p s).2.cursor = s.cursor)
    (rest : ∀ x, Spends spent known more (f x)) : Spends spent known more (p >>= f) := by
  intro n s ordered there fewer
  rw [bindAt]
  exact rest (p s).1 n (p s).2 (same s ▸ ordered) (same s ▸ there) (same s ▸ fewer)

theorem peek {Q : α → Prop} {p : Parse α} (h : Peeks none t Q p)
    (rest : ∀ x, Q x → Spends spent (some t) more (f x)) : Spends spent (some t) more (p >>= f) := by
  intro n s ordered there fewer
  obtain ⟨_, same, result⟩ := h s (there t rfl) ordered (by rintro c ⟨⟩)
  rw [bindAt]
  exact rest (p s).1 result n (p s).2 (same ▸ ordered) (same ▸ there) (same ▸ fewer)

theorem next [Refs α] {p : Parse α} (first : Reads none r a p p)
    (rest : ∀ x, Spends spent none more (f x)) : Spends spent known more (p >>= f) := by
  intro n s ordered _ fewer
  have run := first.run ordered
  exact rest (p s).1 n (p s).2 (runOrdered run ordered) (unknown _)
    (Nat.le_trans (Nat.add_le_add_right (runLength run) _) fewer)

theorem last {p : Parse α} (first : Spends spent known (fun _ => mid) p)
    (rest : ∀ x, Spends mid none more (f x)) : Spends spent known more (p >>= f) := by
  intro n s ordered there fewer
  obtain ⟨ordered', fewer'⟩ := first n s ordered there fewer
  exact rest (p s).1 n (p s).2 ordered' (unknown _) fewer'

theorem ends [Refs β] (h : Reads none r a p p) : Spends spent known (fun _ => spent) p := by
  intro n s ordered _ fewer
  have run := h.run ordered
  exact ⟨runOrdered run ordered, Nat.le_trans (Nat.add_le_add_right (runLength run) _) fewer⟩

/- What takes a token does so behind another one too. -/
theorem again (h : Spends false known more p) : Spends true known more p :=
  fun n s ordered there fewer => h n s ordered there (Nat.le_of_succ_le fewer)

theorem stays (same : ∀ s, (p s).2.cursor = s.cursor) : Spends spent known (fun _ => spent) p := by
  intro n s ordered _ fewer
  rw [same s]
  exact ⟨ordered, fewer⟩

theorem branch {c : Prop} [Decidable c] (yes : c → Spends spent known more p)
    (no : ¬ c → Spends spent known more q) : Spends spent known more (if c then p else q) := by
  split
  · exact yes ‹c›
  · exact no ‹¬ c›

theorem advance {f : Unit → Parse β} (plain : t.isEnd = false) (rest : Spends true none more (f ())) :
    Spends false (some t) more (Parse.advance >>= f) := by
  intro n s ordered there fewer
  obtain rfl := there t rfl
  refine rest n (Parse.advance s).2 (nextOrdered ordered) (unknown _) ?_
  exact Nat.le_trans (Nat.le_of_eq (nextSpends ordered plain)) fewer

theorem report {fault : SyntaxFault} {f : Unit → Parse β} (rest : Spends spent known more (f ())) :
    Spends spent known more (reportHere fault >>= f) := by
  intro n s ordered there fewer
  obtain ⟨current, upcoming⟩ := List.cons.inj (reportAhead s fault)
  exact rest n (reportHere fault s).2 (reportOrdered ordered _ _ _)
    (fun t member => current.trans (there t member)) (upcoming ▸ fewer)

theorem takes {k : TokenKind} [k.Proper] {f : Unit → Parse β} (there : t.kind = k)
    (rest : Spends true none more (f ())) : Spends false (some t) more (expect k >>= f) := by
  intro n s ordered here fewer
  obtain rfl := here t rfl
  rw [bindAt, expectThere there]
  exact advance (moreThere there) rest n s ordered here fewer

theorem accepting {k : TokenKind} [k.Proper] {f : Bool → Parse β}
    (yes : Spends true none more (f true)) (no : Spends false known more (f false)) :
    Spends false known more (Parse.accept k >>= f) := by
  intro n s ordered here fewer
  rw [bindAt]
  by_cases there : s.cursor.current.kind = k
  · rw [acceptThere there]
    refine yes n _ (nextOrdered ordered) (unknown _) ?_
    exact Nat.le_trans (Nat.le_of_eq (nextSpends ordered (moreThere there))) fewer
  · rw [acceptElse there]
    exact no n s ordered here fewer

theorem accept {k : TokenKind} [k.Proper] (yes : Spends true none more p)
    (no : Spends false known more q) : Spends false known more
      (Parse.accept k >>= fun there => if there then p else q) :=
  accepting (.branch (fun _ => yes) fun other => absurd rfl other)
    (.branch (fun there => Bool.noConfusion there) fun _ => no)

/- A part that is known to take a token. -/
theorem nextAt [Refs α] {p : Parse α} (first : ReadsAt none r .moved t p p)
    (rest : ∀ x, Spends true none more (f x)) : Spends false (some t) more (p >>= f) := by
  intro n s ordered there fewer
  obtain ⟨ts, trace, taken⟩ := (first s (there t rfl) ordered (by rintro c ⟨⟩)).2.trace
  have lengths := traceLength trace ordered
  have some := List.length_pos_iff.mpr taken
  refine rest (p s).1 n (p s).2 (traceOrdered trace ordered) (unknown _) ?_
  simp only [Bool.toNat_false, Bool.toNat_true] at fewer ⊢
  omega

/- A part either takes tokens or leaves the token at hand. -/
theorem either [Refs α] {p : Parse α} (first : Reads none r a p p)
    (moved : ∀ x u, t.start < u.start → Spends true (some u) more (f x))
    (still : ∀ x, Spends false (some t) more (f x)) : Spends false (some t) more (p >>= f) := by
  intro n s ordered there fewer
  obtain rfl := there t rfl
  obtain ⟨ts, trace, _⟩ := (first s ordered (by rintro c ⟨⟩)).2.trace
  have ordered' := traceOrdered trace ordered
  have lengths := traceLength trace ordered
  simp only [Bool.toNat_false, Nat.add_zero] at fewer
  rw [bindAt]
  cases ts with
  | nil =>
    refine still (p s).1 n (p s).2 ordered' ?_ ?_
    · rintro t ⟨⟩
      exact traceStill trace ordered
    · simp only [List.length_nil, Bool.toNat_false] at lengths ⊢
      omega
  | cons u us =>
    have behind := (tracePlace trace ordered).2 (List.cons_ne_nil u us)
    refine moved (p s).1 _ behind n (p s).2 ordered' ?_ ?_
    · rintro t ⟨⟩
      rfl
    · simp only [List.length_cons, Bool.toNat_true] at lengths ⊢
      omega

theorem finished {x : σ} : Spends spent known goesOn (pure (.done x)) :=
  fun _ _ ordered _ fewer => ⟨ordered, Nat.le_trans (Nat.le_add_right _ _) fewer⟩

theorem yielded {x : σ} : Spends true known goesOn (pure (.yield x)) :=
  fun _ _ ordered _ fewer => ⟨ordered, fewer⟩

end Spends

/-! ### Rounds of every loop -/

theorem turnsDotted : Turns dottedStep := by
  intro head n s ordered _ fewer
  unfold dottedStep
  rw [bindAt, dottedLooks]
  cases dotted : s.cursor.current.kind == .punct .dot &&
      s.cursor.next.current.kind == .identifier with
  | false => exact ⟨ordered, fewer⟩
  | true =>
    obtain ⟨dot, name⟩ := Bool.and_eq_true_iff.mp dotted
    have first := nextSpends ordered (moreThere (beq_iff_eq.mp dot))
    have ordered' := nextOrdered ordered
    have second := nextSpends (s := (advance s).2) ordered' (moreThere (beq_iff_eq.mp name))
    refine ⟨nextOrdered ordered', ?_⟩
    simp only [Bool.toNat_false] at fewer
    show (advance s).2.cursor.next.upcoming.length + 1 ≤ n
    have same : (advance s).2.cursor = s.cursor.next := rfl
    rw [same] at second ⊢
    omega

theorem turnsType : Turns typeStep := fun _ =>
  .know fun _ => .see seesToken (.branch (fun _ => .finished) fun other =>
    .advance (typeMore other) .yielded)

/- An item, and the comma that leads on to the next one if the item has taken tokens. -/
theorem spendsItem {x y : List Slot} (start : Nat) : Spends false none goesOn
    (do
      if (← accept (.punct .comma)) && (← here) != start then return .yield x
      else return .done y : Parse (ForInStep (List Slot))) :=
  .accepting (.stay (fun _ => rfl) fun _ => .branch (fun _ => .yielded) fun _ => .finished)
    (.stay (fun _ => rfl) fun _ => .branch (fun goes => Bool.noConfusion goes) fun _ => .finished)

theorem turnsTypeRow : Turns typeRowStep := fun _ =>
  .know fun _ => .see seesKind (.branch (fun _ => .finished) fun _ => .see seesHere
    (.next readsTypeReference fun _ => spendsItem _))

theorem turnsSkipTypes : Turns skipTypesStep := fun _ =>
  .know fun _ => .see seesKind (.branch (fun _ => .finished) fun other =>
    .advance (skippedMore other) (.branch (fun _ => .yielded) fun _ => .branch
      (fun _ => .branch (fun _ => .finished) fun _ => .yielded) fun _ => .yielded))

theorem turnsSkipParens : Turns skipParensStep := fun _ => by
  refine .know fun t => .see seesKind ?_
  split
  iterate 3 exact .advance (moreThere ‹_›) .yielded
  iterate 3 exact .see (seesIsAt _) (.advance (moreThere ‹_›)
    (.branch (fun _ => .finished) fun _ => .yielded))
  · exact .finished
  · rename_i other
    exact .advance (beq_eq_false_iff_ne.mpr other) .yielded

theorem turnsModifier : Turns modifierStep := fun _ => by
  refine .know fun _ => .see seesToken (.branch (fun word => ?_) fun _ => .finished)
  have more := moreThere (beq_iff_eq.mp (Bool.and_eq_true_iff.mp word).1)
  exact .stay (fun _ => rfl) fun _ => .branch (fun _ => .advance more .yielded) fun _ => .finished

theorem turnsMark (modifiers : List String) : Turns (markStep modifiers) := fun _ =>
  .know fun _ => .peek (peeksModifies modifiers) fun _ word => .branch
    (fun yes => .see seesToken (.advance (moreThere (word yes)) .yielded)) fun _ => .finished

theorem turnsInterface : Turns interfaceStep := fun _ =>
  .next readsTypeReference fun _ => .accept .yielded .finished

section
variable {sub : SubParse} {t : Token} (h : Agree none sub sub)
include h

theorem turnsComma (start : Nat) : Turns (commaStep sub start) := fun _ =>
  .accept (.next h.assignment fun _ => .stay (fun _ => rfl) fun _ => .yielded) .finished

theorem turnsBinary (above start : Nat) : Turns (binaryStep sub above start) := fun _ =>
  .know fun _ => .see seesKind (.stay (fun _ => rfl) fun _ => .branch (fun _ => .finished) fun binds =>
    .advance (bindsMore binds) (.next (h.binary _) fun _ => .stay (fun _ => rfl) fun _ => .yielded))

theorem turnsArgument : Turns (argumentStep sub) := fun _ =>
  .know fun _ => .see seesKind (.branch (fun _ => .finished) fun _ => .branch
    (fun spread => .nextAt (readsSpread h (beq_iff_eq.mp spread)) fun _ =>
      .again (.accept .yielded .finished))
    fun _ => .next h.assignment fun _ => .accept .yielded .finished)

omit h in
theorem spendsProperty {spent : Bool} (start : Nat) (object : Slot) (optional : Bool) :
    Spends spent none (fun _ => spent) (propertyRest start object optional) :=
  .next readsAnyName fun _ => .stays fun _ => rfl

theorem spendsElement (there : t.kind = .punct .openBracket) (start : Nat) (object : Slot)
    (optional : Bool) :
    Spends false (some t) (fun _ => true) (elementRest sub start object optional) :=
  .takes there (.next (readsInForbidden _ (readsExpression h)) fun _ => .next (readsExpect _) fun _ =>
    .stays fun _ => rfl)

theorem spendsCall (opens : t.kind = .punct .openParen ∨ t.kind = .punct .less) (start : Nat)
    (callee : Slot) : Spends false (some t) (fun _ => true) (callRest sub start callee) := by
  have bare (there : t.kind = .punct .openParen) : Spends false (some t) (fun _ => true)
      (arguments sub >>= fun args => finish .callExpression start (.call ⟨callee, none, some args⟩)) :=
    .nextAt (readsArgumentsAt h there) fun _ => .stays fun _ => rfl
  have generic (there : t.kind = .punct .less) : Spends false (some t) (fun _ => true)
      (typeArguments >>= fun types => arguments sub >>= fun args =>
        finish .callExpression start (.call ⟨callee, some types, some args⟩)) :=
    .nextAt (readsTypeArguments there) fun _ => .next (readsArguments h) fun _ => .stays fun _ => rfl
  refine .see (seesIsAt _) (.branch (fun less => generic (beq_iff_eq.mp less)) fun other => ?_)
  rcases opens with there | there
  · exact bare there
  · exact absurd (beq_iff_eq.mpr there) other

theorem spendsOptional (start : Nat) (object : Slot) :
    Spends true none (fun _ => true) (optionalRest sub start object) := by
  have call {t : Token} (opens : t.kind = .punct .openParen ∨ t.kind = .punct .less) :
      Spends true (some t) (fun _ => true)
        (do
          let call ← callRest sub start object
          addFlags call .optionalChain
          return call) :=
    .last (.again (spendsCall h opens _ _)) fun call => .next (readsAddFlags call (by decide)) fun _ =>
      .stays fun _ => rfl
  refine .know fun t => .see seesKind ?_
  split
  · exact call (.inl ‹_›)
  · exact call (.inr ‹_›)
  · exact .again (spendsElement h ‹_› _ _ _)
  · exact .anywhere (spendsProperty _ _ _)

theorem turnsChain (start : Nat) : Turns (chainStep sub start) := fun _ => by
  refine .know fun t => .see seesKind ?_
  split
  · exact .advance (moreThere ‹_›) (.last (spendsProperty _ _ _) fun _ => .yielded)
  · exact .advance (moreThere ‹_›) (.last (spendsOptional h _ _) fun _ => .yielded)
  · exact .last (spendsElement h ‹_› _ _ _) fun _ => .yielded
  · exact .last (spendsCall h (.inl ‹_›) _ _) fun _ => .yielded
  · exact .peek peeksGenericCall fun _ _ => .branch
      (fun _ => .last (spendsCall h (.inr ‹_›) _ _) fun _ => .yielded) fun _ => .finished
  · exact .see seesAfterLineBreak (.branch (fun _ => .finished) fun _ =>
      .advance (moreThere ‹_›) (.stay (fun _ => rfl) fun _ => .yielded))
  · exact .finished

theorem turnsConstructor (start : Nat) : Turns (constructorStep sub start) := fun _ => by
  refine .know fun t => .see seesKind ?_
  split
  · exact .advance (moreThere ‹_›) (.last (spendsProperty _ _ _) fun _ => .yielded)
  · exact .last (spendsElement h ‹_› _ _ _) fun _ => .yielded
  · exact .finished

theorem turnsParameter : Turns (parameterStep sub) := fun _ =>
  .know fun _ => .see seesKind (.branch (fun _ => .finished) fun _ => .see seesHere
    (.next (readsParameter h) fun _ => spendsItem _))

theorem turnsElement : Turns (elementStep sub) := fun _ => by
  refine .know fun t => .see seesKind ?_
  split
  · exact .finished
  · exact .finished
  · exact .see seesHere (.stay (fun _ => rfl) fun _ =>
      .advance (moreThere ‹_›) .yielded)
  · exact .branch
      (fun spread => .nextAt (readsSpread h (beq_iff_eq.mp spread)) fun _ =>
        .again (.accept .yielded .finished))
      fun _ => .next h.assignment fun _ => .accept .yielded .finished

theorem turnsObject : Turns (objectStep sub) := fun _ =>
  .know fun _ => .see seesKind (.branch (fun _ => .finished) fun _ => .see seesHere
    (.next (readsObjectMember h) fun _ => spendsItem _))

theorem turnsDeclaration : Turns (declarationStep sub) := fun _ =>
  .next (readsVariable h) fun _ => .accept .yielded .finished

/- A statement that leaves the token at hand is dropped with it. -/
theorem turnsStatement (wholeFile : Bool) : Turns (statementStep sub wholeFile) := fun _ => by
  refine .know fun t => .see seesKind (.branch (fun _ => .finished) fun other => .branch
    (fun brace => .branch
      (fun _ => .report (.advance (moreThere (beq_iff_eq.mp brace)) .yielded))
      fun _ => .finished)
    fun _ => .see seesHere (.either h.statement (fun s _ behind => ?_) fun s => ?_))
  · have differ := beq_eq_false_iff_ne.mpr (Nat.ne_of_gt behind)
    cases s <;> exact .see seesHere (.see seesToken (.branch
      (fun same => by rw [differ] at same; cases same) fun _ => .yielded))
  · have more : t.isEnd = false := Bool.eq_false_iff.mpr other
    cases s <;> exact .see seesHere (.see seesToken (.branch (fun _ => .report (.advance more .yielded))
      fun there => absurd (by rw [more, beq_self_eq_true]; rfl) there))

/- So is a member. -/
theorem turnsMember : Turns (memberStep sub) := fun _ => by
  refine .know fun t => .see seesKind (.branch (fun _ => .finished) fun other => .accept .yielded
    (.see seesHere (.either (readsClassMember h) (fun m _ behind => ?_) fun m => ?_)))
  · have differ := Nat.ne_of_gt behind
    cases m <;> exact .see seesHere (.branch (fun same => absurd (beq_iff_eq.mp same) differ)
      fun _ => .yielded)
  · have more : t.isEnd = false := beq_eq_false_iff_ne.mpr fun ends => other (by rw [ends]; rfl)
    cases m <;> exact .see seesHere (.branch (fun _ => .report (.advance more .yielded))
      fun there => absurd (beq_self_eq_true _) there)

end

/- The rounds of all loops there are. -/
inductive LoopRound (sub : SubParse) : (σ : Type) → (σ → Parse (ForInStep σ)) → Prop where
  | statement (wholeFile) : LoopRound sub _ (statementStep sub wholeFile)
  | declaration : LoopRound sub _ (declarationStep sub)
  | member : LoopRound sub _ (memberStep sub)
  | interface : LoopRound sub _ interfaceStep
  | comma (start) : LoopRound sub _ (commaStep sub start)
  | binary (above start) : LoopRound sub _ (binaryStep sub above start)
  | argument : LoopRound sub _ (argumentStep sub)
  | chain (start) : LoopRound sub _ (chainStep sub start)
  | construct (start) : LoopRound sub _ (constructorStep sub start)
  | modifier : LoopRound sub _ modifierStep
  | parameter : LoopRound sub _ (parameterStep sub)
  | element : LoopRound sub _ (elementStep sub)
  | mark (modifiers) : LoopRound sub _ (markStep modifiers)
  | object : LoopRound sub _ (objectStep sub)
  | dotted : LoopRound sub _ dottedStep
  | type : LoopRound sub _ typeStep
  | typeRow : LoopRound sub _ typeRowStep
  | skipTypes : LoopRound sub _ skipTypesStep
  | skipParens : LoopRound sub _ skipParensStep

theorem roundTurns {sub : SubParse} (h : Agree none sub sub) {σ : Type}
    {step : σ → Parse (ForInStep σ)} (round : LoopRound sub σ step) : Turns step := by
  cases round with
  | statement wholeFile => exact turnsStatement h wholeFile
  | declaration => exact turnsDeclaration h
  | member => exact turnsMember h
  | interface => exact turnsInterface
  | comma start => exact turnsComma h start
  | binary above start => exact turnsBinary h above start
  | argument => exact turnsArgument h
  | chain start => exact turnsChain h start
  | construct start => exact turnsConstructor h start
  | modifier => exact turnsModifier
  | parameter => exact turnsParameter h
  | element => exact turnsElement h
  | mark modifiers => exact turnsMark modifiers
  | object => exact turnsObject h
  | dotted => exact turnsDotted
  | type => exact turnsType
  | typeRow => exact turnsTypeRow
  | skipTypes => exact turnsSkipTypes
  | skipParens => exact turnsSkipParens

/-! ### Loops without a bound -/

section
variable {σ : Type} {step : σ → Parse (ForInStep σ)} {s s' : ParseState} {x y : σ}

theorem turnsFewer (turns : Turns step) (ordered : s.cursor.Ordered)
    (goes : step x s = (.yield y, s')) :
    s'.cursor.Ordered ∧ s'.cursor.upcoming.length < s.cursor.upcoming.length := by
  have spent := turns x _ s ordered (unknown s) (Nat.le_refl _)
  rw [goes] at spent
  exact spent

/- As many rounds as there are tokens left are as good as any more. -/
theorem repeatEnough (turns : Turns step) {rounds others : List Token} (ordered : s.cursor.Ordered)
    (enough : s.cursor.upcoming.length ≤ rounds.length)
    (enough' : s.cursor.upcoming.length ≤ others.length) :
    repeatOver step rounds x s = repeatOver step others x s := by
  induction rounds generalizing others x s with
  | nil =>
    obtain ⟨r, s', result⟩ : ∃ r s', step x s = (r, s') := ⟨_, _, rfl⟩
    cases r with
    | done y => rw [repeatStops result, repeatStops result]
    | yield y =>
      have fewer := (turnsFewer turns ordered result).2
      exact absurd (Nat.lt_of_lt_of_le fewer enough) (Nat.not_lt_zero _)
  | cons t rounds ih =>
    obtain ⟨r, s', result⟩ : ∃ r s', step x s = (r, s') := ⟨_, _, rfl⟩
    cases r with
    | done y => rw [repeatStops result, repeatStops result]
    | yield y =>
      obtain ⟨ordered', fewer⟩ := turnsFewer turns ordered result
      cases others with
      | nil => exact absurd (Nat.lt_of_lt_of_le fewer enough') (Nat.not_lt_zero _)
      | cons u others =>
        rw [repeatGoes result, repeatGoes result]
        exact ih ordered' (Nat.le_of_lt_succ (Nat.lt_of_lt_of_le fewer enough))
          (Nat.le_of_lt_succ (Nat.lt_of_lt_of_le fewer enough'))

/- A loop goes round until a round is the last one. -/
theorem loopUnbounded (turns : Turns step) (ordered : s.cursor.Ordered) (x : σ) :
    loop step x s = (do
      match ← step x with
      | .done y => return y
      | .yield y => loop step y) s := by
  rw [bindAt]
  obtain ⟨r, s', result⟩ : ∃ r s', step x s = (r, s') := ⟨_, _, rfl⟩
  rw [result]
  cases r with
  | done y => exact loopStops result
  | yield y =>
    obtain ⟨ordered', fewer⟩ := turnsFewer turns ordered result
    show repeatOver step s.cursor.upcoming x s = repeatOver step s'.cursor.upcoming y s'
    generalize s.cursor.upcoming = rounds at fewer
    cases rounds with
    | nil => exact absurd fewer (Nat.not_lt_zero _)
    | cons t rounds =>
      rw [repeatGoes result]
      exact repeatEnough turns ordered' (Nat.le_of_lt_succ fewer) (Nat.le_refl _)

theorem loopGoes {y : σ} {s' : ParseState} (turns : Turns step) (ordered : s.cursor.Ordered)
    (round : step x s = (.yield y, s')) : loop step x s = loop step y s' := by
  rw [loopUnbounded turns ordered, bindAt, round]

/- What every last round leads to holds behind the loop. -/
theorem loopEnds (turns : Turns step) {P : ParseState → Prop}
    (last : ∀ x y s s', step x s = (.done y, s') → P s') (ordered : s.cursor.Ordered) (x : σ) :
    P (loop step x s).2 := by
  induction left : s.cursor.upcoming.length using Nat.strongRecOn generalizing x s with
  | ind n ih =>
    obtain ⟨r, s', result⟩ : ∃ r s', step x s = (r, s') := ⟨_, _, rfl⟩
    rw [loopUnbounded turns ordered, bindAt, result]
    cases r with
    | done y => exact last x y s s' result
    | yield y =>
      obtain ⟨ordered', fewer⟩ := turnsFewer turns ordered result
      exact ih _ (left ▸ fewer) ordered' y rfl

end

/-! ### The whole text -/

/- Of a whole file only the end token ends the statements. -/
theorem statementStops {sub : SubParse} {x y : List Slot} {s s' : ParseState}
    (stops : statementStep sub true x s = (.done y, s')) : s'.cursor.current.isEnd = true := by
  have behind {α : Type} {p : Parse α} {f : α → Parse (ForInStep (List Slot))}
      (rest : ∀ a s, goesOn (f a s).1 = true) (s : ParseState) : goesOn ((p >>= f) s).1 = true :=
    rest _ _
  change (ite ((s.cursor.current.kind == .endOfFile) = true) _ _ : Parse _) s = _ at stops
  split at stops
  · cases stops
    assumption
  · have goes : goesOn (ForInStep.done y, s').1 = true := by
      rw [← stops]
      split
      · rfl
      · exact behind (fun _ => behind fun _ => behind fun _ => behind fun _ s => by split <;> rfl) s
    cases goes

end Parse

namespace Program
open Parse

theorem initialAhead {tokens : List Token} (row : Token.Row 0 tokens) :
    (initialState tokens).cursor.ahead = tokens := by
  cases row <;> rfl

/- With any number of productions from a bound on, and with anything below them, the statements of
a text are the same, and they run a strict course. -/
theorem statementsCourse (text : List Char) (deepest : SubParse) {fuel : Nat}
    (enough : fuelFor (tokensOf text).length ≤ fuel) :
    (statementList (unrolled deepest fuel) true).run (initialState (tokensOf text)) =
        statements (tokensOf text) ∧
      ∃ taken looks, Course true (initialState (tokensOf text)) taken looks
        (present (statements (tokensOf text)).1.items) (statements (tokensOf text)).2 := by
  have agree := unrolledAgrees (fun _ => pure none) deepest enough
  have fits : Affords (some (fuelFor (tokensOf text).length)) 4 (initialState (tokensOf text)) := by
    rintro c ⟨⟩
    have fewer : (initialState (tokensOf text)).cursor.upcoming.length ≤ (tokensOf text).length := by
      cases tokensOf text <;> simp [initialState]
    unfold fuelFor
    omega
  rw [← productionUnrolled] at agree
  obtain ⟨same, held⟩ := readsStatementList agree true _ (initialOrdered text) fits
  obtain ⟨taken, looks, course, _⟩ := held.course
  exact ⟨same.symm, taken, looks, course⟩

theorem statementsAgree (text : List Char) (deepest : SubParse) {fuel : Nat}
    (enough : fuelFor (tokensOf text).length ≤ fuel) :
    (statementList (unrolled deepest fuel) true).run (initialState (tokensOf text)) =
        statements (tokensOf text) ∧
      ∃ taken, Trace true (initialState (tokensOf text)) taken
        (present (statements (tokensOf text)).1.items) (statements (tokensOf text)).2 := by
  obtain ⟨same, taken, _, course⟩ := statementsCourse text deepest enough
  exact ⟨same, taken, courseTrace course⟩

theorem statementsEnd (text : List Char) :
    (statements (tokensOf text)).2.cursor.current.isEnd = true :=
  loopEnds (P := fun s => s.cursor.current.isEnd = true) (turnsStatement (productionAgrees _) true)
    (fun _ _ _ _ stops => statementStops stops) (initialOrdered text) []

/- Reading ends with the end token at hand, and every other token was taken once, in the order of
the text. No bound of the reader is ever what ends it: other productions below the ones there are
make no difference, and a loop goes round until a round is the last one, each round before it on
fewer tokens. -/
theorem statementsConsume (text : List Char) :
    (∀ deepest fuel, fuelFor (tokensOf text).length ≤ fuel →
      (statementList (unrolled deepest fuel) true).run (initialState (tokensOf text)) =
        statements (tokensOf text)) ∧
    ((statements (tokensOf text)).2.cursor.current.kind = .endOfFile ∧
      (statements (tokensOf text)).2.cursor.upcoming = []) ∧
    (∃ taken, Trace true (initialState (tokensOf text)) taken
      (present (statements (tokensOf text)).1.items) (statements (tokensOf text)).2) ∧
    (∀ strict taken ids,
      Trace strict (initialState (tokensOf text)) taken ids (statements (tokensOf text)).2 →
      tokensOf text = taken ++ [(statements (tokensOf text)).2.cursor.current]) ∧
    ∀ fuel σ (step : σ → Parse (ForInStep σ)), LoopRound (production fuel) σ step →
      ∀ s : ParseState, s.cursor.Ordered → ∀ x,
        (∀ y s', step x s = (.yield y, s') →
          s'.cursor.upcoming.length < s.cursor.upcoming.length) ∧
        loop step x s = (do
          match ← step x with
          | .done y => return y
          | .yield y => loop step y) s := by
  have ends := statementsEnd text
  obtain ⟨_, taken, trace⟩ := statementsAgree text (fun _ => pure none) (Nat.le_refl _)
  have ordered := traceOrdered trace (initialOrdered text)
  have empty := Token.rowEnds ordered.row ends
  refine ⟨fun deepest fuel enough => (statementsAgree text deepest enough).1,
    ⟨beq_iff_eq.mp ends, empty⟩, ⟨taken, trace⟩, fun strict taken ids trace => ?_,
    fun fuel σ step round s ordered x => ?_⟩
  · have whole := (traceRun trace (initialOrdered text)).2
    rw [initialAhead (tokensRow text), Cursor.ahead, empty] at whole
    exact whole
  · have turns := roundTurns (productionAgrees fuel) round
    exact ⟨fun y s' goes => (turnsFewer turns ordered goes).2, loopUnbounded turns ordered x⟩

end Program
end CallGuard
