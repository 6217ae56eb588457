import CallGuard.Parser.Program

/-! Looking ahead. A program looks ahead in nine ways. Whatever the state, each of them comes back to
the same place, at the same depth, with the same faults, and adds at most types that stand alone. -/
namespace CallGuard

/- A type that has neither a parent nor a mark. -/
structure Node.StrayType (n : Node) : Prop where
  kind : n.kind = .typeReference
  holds : ∃ r, n.payload? = some (.typeReference r)
  root : n.parent? = none
  plain : n.flags = 0

namespace Parse

/- Away from the place that was reached, only stray types behind all other nodes are new. -/
structure Strays (s s' : ParseState) : Prop where
  depth : s'.depth = s.depth
  inForbidden : s'.inForbidden = s.inForbidden
  text : s'.tree.text? = s.tree.text?
  nodes : ∃ added : List Node, s'.tree.nodes.toList = s.tree.nodes.toList ++ added ∧
    ∀ n ∈ added, n.StrayType

/- Only stray types behind all other nodes are new. -/
structure Traceless (s s' : ParseState) : Prop extends Strays s s' where
  cursor : s'.cursor = s.cursor

theorem Strays.refl (s : ParseState) : Strays s s :=
  ⟨rfl, rfl, rfl, [], (List.append_nil _).symm, fun _ member => nomatch member⟩

theorem Strays.trans {s s' s'' : ParseState} (one : Strays s s') (two : Strays s' s'') :
    Strays s s'' := by
  obtain ⟨added, behind, stray⟩ := one.nodes
  obtain ⟨more, behind', stray'⟩ := two.nodes
  refine ⟨two.depth.trans one.depth, two.inForbidden.trans one.inForbidden, two.text.trans one.text,
    added ++ more, by rw [behind', behind, List.append_assoc], fun n member => ?_⟩
  exact (List.mem_append.mp member).elim (stray n) (stray' n)

/- A reader that may go anywhere, but adds stray types only. -/
def Strolls {α : Type} (p : Parse α) : Prop := ∀ s, Strays s (p s).2

namespace Strolls
variable {α β σ : Type} {p q : Parse α} {f : α → Parse β}

theorem still (same : ∀ s, (p s).2 = s) : Strolls p := fun s => by
  rw [same]
  exact .refl s

theorem pure (x : α) : Strolls (Pure.pure x) := still fun _ => rfl

theorem bind (first : Strolls p) (rest : ∀ x, Strolls (f x)) : Strolls (p >>= f) :=
  fun s => (first s).trans (rest _ _)

theorem branch {c : Prop} [Decidable c] (yes : Strolls p) (no : Strolls q) :
    Strolls (if c then p else q) := by
  split
  · exact yes
  · exact no

theorem advance : Strolls advance := fun s => ⟨rfl, rfl, rfl, (Strays.refl s).nodes⟩

theorem report (fault : SyntaxFault) : Strolls (reportHere fault) :=
  fun s => ⟨rfl, rfl, rfl, (Strays.refl s).nodes⟩

theorem token : Strolls token := still fun _ => rfl
theorem kind : Strolls kind := still fun _ => rfl
theorem isAt (k : TokenKind) : Strolls (isAt k) := still fun _ => rfl
theorem afterLineBreak : Strolls afterLineBreak := still fun _ => rfl
theorem contextual (word : String) : Strolls (isContextual word) := still fun _ => rfl

theorem accept (k : TokenKind) : Strolls (accept k) :=
  .bind (.isAt k) fun _ => .branch (.bind .advance fun _ => .pure true) (.pure false)

theorem look (inner : Strolls p) : Strolls (lookAhead p) := fun s =>
  ⟨(inner s).depth, (inner s).inForbidden, (inner s).text, (inner s).nodes⟩

theorem loop {step : σ → Parse (ForInStep σ)} (round : ∀ x, Strolls (step x)) (x : σ) :
    Strolls (Parse.loop step x) := by
  have rounds (ts : List Token) (x : σ) : Strolls (repeatOver step ts x) := by
    induction ts generalizing x with
    | nil => exact .bind (round x) fun | .done a | .yield a => .pure a
    | cons t ts ih =>
      refine .bind (round x) fun
        | .done a => .pure a
        | .yield a => ih a
  exact .bind (.still fun _ => rfl) fun s => rounds s.cursor.upcoming x

theorem strayType (start stop : Nat) (r : TypeReference) :
    Strolls (addNode (.holding .typeReference start stop (.typeReference r))) := fun s => by
  refine ⟨rfl, rfl, rfl, [.holding .typeReference start stop (.typeReference r)], ?_, fun n member => ?_⟩
  · exact Array.toList_push
  · cases List.mem_singleton.mp member
    exact ⟨rfl, ⟨r, rfl⟩, rfl, rfl⟩

end Strolls

/-! ### Types -/

theorem strollsDotted (head : String) : Strolls (dottedStep head) :=
  .bind (.look (.bind (.isAt _) fun _ => .branch (.bind .advance fun _ => .isAt _) (.pure _))) fun _ =>
    .branch (.bind .advance fun _ => .bind .token fun _ => .bind .advance fun _ => .pure _) (.pure _)

theorem strollsTypeStep (scan : TypeScan) : Strolls (typeStep scan) :=
  .bind .token fun _ => .branch (.pure _) (.bind .advance fun _ => .pure _)

theorem strollsTypeReference : Strolls typeReference := by
  have head : Strolls typeHead := .bind .token fun _ =>
    .branch (.bind .advance fun _ => .loop strollsDotted _) (.pure _)
  have node (start : Nat) (r : TypeReference) : Strolls (do
      addNode (.holding .typeReference start (max (← prevStop) start) (.typeReference r))) :=
    .bind (.still fun _ => rfl) fun _ => .strayType _ _ _
  exact .bind (.still fun _ => rfl) fun _ => .bind head fun _ => .bind (.loop strollsTypeStep _) fun _ =>
    .branch (node _ _) (.bind (.report _) fun _ => node _ _)

theorem strollsOptionalType : Strolls optionalType :=
  .bind (.accept _) fun _ => .branch strollsTypeReference (.pure _)

theorem strollsSkipTypes : Strolls skipTypeArguments := by
  have step (x : Nat × Bool) : Strolls (skipTypesStep x) := .bind .kind fun _ =>
    .branch (.pure _) (.bind .advance fun _ =>
      .branch (.pure _) (.branch (.branch (.pure _) (.pure _)) (.pure _)))
  exact .bind (.isAt _) fun _ => .branch (.bind (.loop step _) fun _ => .pure _) (.pure _)

theorem strollsSkipParens : Strolls skipParenthesized := by
  have step (x : Nat × Bool) : Strolls (skipParensStep x) := by
    refine .bind .kind fun k => ?_
    split
    iterate 3 exact .bind .advance fun _ => .pure _
    iterate 3 exact .bind (.isAt _) fun _ => .bind .advance fun _ => .branch (.pure _) (.pure _)
    · exact .pure _
    · exact .bind .advance fun _ => .pure _
  exact .bind (.isAt _) fun _ => .branch (.bind (.loop step _) fun _ => .pure _) (.pure _)

theorem strollsArrowFollows : Strolls arrowFollows := by
  have behind : Strolls (do
      unless ← skipParenthesized do return false
      let _ ← optionalType
      isAt (.punct .arrow)) :=
    .bind strollsSkipParens fun _ => .branch (.bind strollsOptionalType fun _ => .isAt _) (.pure _)
  have bracket : Strolls (do
      if ← isAt (.punct .less) then
        unless ← skipTypeArguments do return false
      unless ← skipParenthesized do return false
      let _ ← optionalType
      isAt (.punct .arrow)) :=
    .bind (.isAt _) fun _ => .branch
      (.bind strollsSkipTypes fun _ => .branch behind (.pure _)) behind
  refine .bind .kind fun k => ?_
  split
  · exact .bind .advance fun _ => .isAt _
  · exact bracket
  · exact bracket
  · exact .pure _

/-! ### The ways of looking ahead -/

inductive LookAhead
  | dottedName | genericCall | parameterModifier | asyncFunction | arrowFunction | asyncArrow
  | memberModifier | constructedTypes | constructor
  deriving DecidableEq, Repr

/- What is read before it is all taken back. -/
def LookAhead.body : LookAhead → Parse Bool
  | dottedName => do
    if ← isAt (.punct .dot) then
      advance
      isAt .identifier
    else return false
  | genericCall => do
    if ← skipTypeArguments then isAt (.punct .openParen) else return false
  | parameterModifier => do
    advance
    let k ← kind
    return k.isNameLike || k == .punct .openBrace || k == .punct .openBracket
  | asyncFunction => do
    advance
    return (← isAt (.word .functionWord)) && !(← afterLineBreak)
  | arrowFunction => do
    if ← isContextual "async" then
      advance
      if ← afterLineBreak then return false
      if ← isAt (.punct .arrow) then return true
    arrowFollows
  | asyncArrow => do
    advance
    return !(← isAt (.punct .arrow))
  | memberModifier => do
    advance
    return !(← afterLineBreak) && startsPropertyName (← kind)
  | constructedTypes => skipTypeArguments
  | constructor => do
    advance
    isAt (.punct .openParen)

namespace LookAhead

theorem strolls (g : LookAhead) : Strolls g.body := by
  cases g with
  | dottedName =>
    exact .bind (.isAt _) fun _ => .branch (.bind .advance fun _ => .isAt _) (.pure _)
  | genericCall => exact .bind strollsSkipTypes fun _ => .branch (.isAt _) (.pure _)
  | parameterModifier => exact .bind .advance fun _ => .bind .kind fun _ => .pure _
  | asyncFunction =>
    exact .bind .advance fun _ => .bind (.isAt _) fun _ => .bind .afterLineBreak fun _ => .pure _
  | arrowFunction =>
    exact .bind (.contextual _) fun _ => .branch
      (.bind .advance fun _ => .bind .afterLineBreak fun _ => .branch (.pure _)
        (.bind (.isAt _) fun _ => .branch (.pure _) strollsArrowFollows))
      strollsArrowFollows
  | asyncArrow => exact .bind .advance fun _ => .bind (.isAt _) fun _ => .pure _
  | memberModifier =>
    exact .bind .advance fun _ => .bind .afterLineBreak fun _ => .bind .kind fun _ => .pure _
  | constructedTypes => exact strollsSkipTypes
  | constructor => exact .bind .advance fun _ => .isAt _

/- Whatever the state, looking ahead leaves at most stray types. -/
theorem traceless (g : LookAhead) (s : ParseState) : Traceless s (lookAhead g.body s).2 :=
  ⟨(Strolls.look g.strolls) s, rfl⟩

end LookAhead
end Parse
end CallGuard
