import CallGuard.Proofs.Expression.Shape
import CallGuard.Proofs.Type.Arguments

/-! A parenthesis in the middle of a conditional. Whether an arrow function begins with it is decided by
what stands behind it, and a colon counts as the one before a result type. So where the last branch of
the conditional is an arrow function, its parameter and its arrow are taken for the result type and the
arrow of the parenthesis, and the colon of the conditional is missed. -/
namespace CallGuard

/-! ### Groups of brackets -/

inductive GroupPair : Punctuator → Punctuator → Prop where
  | parens : GroupPair .openParen .closeParen
  | brackets : GroupPair .openBracket .closeBracket
  | braces : GroupPair .openBrace .closeBrace

/- A bracket of one of these pairs, or the end of the text. -/
def TokenKind.isGrouping : TokenKind → Bool
  | .punct .openParen | .punct .closeParen | .punct .openBracket | .punct .closeBracket
  | .punct .openBrace | .punct .closeBrace | .endOfFile => true
  | _ => false

/- Every bracket is closed by its own kind. -/
inductive Balanced : List TokenKind → Prop where
  | nil : Balanced []
  | one {k} (plain : k.isGrouping = false) : Balanced [k]
  | append {left right} (first : Balanced left) (second : Balanced right) : Balanced (left ++ right)
  | group {p q inner} (pair : GroupPair p q) (inside : Balanced inner) :
      Balanced (.punct p :: (inner ++ [.punct q]))

namespace Balanced
variable {k : TokenKind} {row left right : List TokenKind}

theorem before (plain : k.isGrouping = false) (more : Balanced row) : Balanced (k :: row) :=
  .append (.one plain) more

theorem between (first : Balanced left) (plain : k.isGrouping = false) (second : Balanced right) :
    Balanced (left ++ k :: right) :=
  .append first (.before plain second)

end Balanced

namespace Expr

theorem wordUngrouped (w : Word) : (Mark.word w).kind.isGrouping = false := by
  rcases w.kindForm with name | ⟨k, reserved⟩
  · rw [Mark.kind, name]
    rfl
  · rw [Mark.kind, reserved]
    rfl

theorem opUngrouped {k : TokenKind} (known : 0 < Parse.precedence k false ∨ k.isAssignment = true ∨
    Parse.isPrefixOperator k = true) : k.isGrouping = false := by
  unfold TokenKind.isGrouping
  split <;> first | rfl | (revert known; decide)

theorem dotUngrouped (optional : Bool) : (dot optional).kind.isGrouping = false := by
  cases optional <;> rfl

mutual

/- An expression closes the brackets that it opens. -/
theorem balanced : (e : Expr) → Balanced (e.marks.map Mark.kind)
  | .name n => .one (wordUngrouped n.toWord)
  | .constant c => .one (wordUngrouped (.reserved c.word))
  | .number n => .one rfl
  | .prefixed op e => .before (opUngrouped (.inr (.inr op.stands))) e.balanced
  | .awaited e => .before (wordUngrouped _) e.balanced
  | .binary op l r => by
    simpa [marks] using l.balanced.between (opUngrouped (.inl op.binds)) r.balanced
  | .conditional c x y => by
    simpa [marks, Mark.kind] using c.balanced.between (k := .punct .question) rfl
      (x.balanced.between (k := .punct .colon) rfl y.balanced)
  | .assignName n op v =>
    .before (wordUngrouped n.toWord) (.before (opUngrouped (.inr (.inl op.assigns))) v.balanced)
  | .assignProperty o optional w op v => by
    simpa [marks] using o.balanced.between (dotUngrouped optional)
      (.before (wordUngrouped w) (.before (opUngrouped (.inr (.inl op.assigns))) v.balanced))
  | .access o optional w => by
    simpa [marks] using o.balanced.between (dotUngrouped optional) (.one (wordUngrouped w))
  | .call f args => by
    simpa [marks, Mark.kind] using f.balanced.append (.group .parens (argsBalanced args))
  | .nonNull e => by simpa [marks, Mark.kind] using e.balanced.append (.one (k := .punct .bang) rfl)
  | .paren e => by simpa [marks, Mark.kind] using Balanced.group .parens e.balanced

theorem argsBalanced : (es : List Expr) → Balanced ((argMarks es).map Mark.kind)
  | [] => .nil
  | [e] => e.balanced
  | e :: f :: es => by
    simpa [argMarks, Mark.kind] using e.balanced.between (k := .punct .comma) rfl (argsBalanced (f :: es))

end

end Expr

namespace Parse
variable {s : ParseState} {k : TokenKind} {p q : Punctuator} {ks row inner rest : List TokenKind}

/- The text goes on with tokens of these kinds. -/
structure Facing (ks : List TokenKind) (s : ParseState) : Prop where
  ordered : s.cursor.Ordered
  kinds : s.cursor.kinds = ks

theorem Facing.same (facing : Facing ks s) (s' : ParseState) (cursor : s'.cursor = s.cursor) :
    Facing ks s' := by
  refine ⟨?_, ?_⟩ <;> rw [cursor]
  · exact facing.ordered
  · exact facing.kinds

theorem Facing.current (facing : Facing (k :: ks) s) : s.cursor.current.kind = k :=
  (List.cons.inj facing.kinds).1

theorem Facing.next [k.Proper] (facing : Facing (k :: ks) s) : Facing ks (advance s).2 := by
  refine ⟨nextOrdered facing.ordered, ?_⟩
  have taken := congrArg (List.map Token.kind) (takeAhead facing.ordered (moreThere facing.current))
  exact (List.cons.inj (taken.symm.trans facing.kinds)).2

theorem Facing.kind (facing : Facing (k :: ks) s) : kind s = (k, s) :=
  congrArg (·, s) facing.current

theorem Facing.isAt (facing : Facing (k :: ks) s) (l : TokenKind) : isAt l s = (k == l, s) :=
  congrArg (fun there => (there == l, s)) facing.current

section
variable {d : Nat} {b : Bool}

theorem skipPlain (plain : k.isGrouping = false) (facing : Facing (k :: ks) s) :
    loop skipParensStep (d, b) s = loop skipParensStep (d, false) (advance s).2 := by
  refine loopGoes turnsSkipParens facing.ordered ?_
  show (bind kind _ : Parse _) s = _
  rw [bindAt, facing.kind]
  dsimp only
  split <;> first | rfl | cases plain

theorem skipOpening (pair : GroupPair p q) (facing : Facing (.punct p :: ks) s) :
    loop skipParensStep (d, b) s = loop skipParensStep (d + 1, false) (advance s).2 := by
  refine loopGoes turnsSkipParens facing.ordered ?_
  show (bind kind _ : Parse _) s = _
  rw [bindAt, facing.kind]
  cases pair <;> rfl

theorem closingStep (pair : GroupPair p q) (facing : Facing (.punct q :: ks) s) :
    skipParensStep (d, b) s =
      (if d = 1 then .done (0, q == .closeParen) else .yield (d - 1, false), (advance s).2) := by
  show (bind kind _ : Parse _) s = _
  rw [bindAt, facing.kind]
  have matched : isAt (.punct .closeParen) s = (q == .closeParen, s) := by
    rw [facing.isAt]
    cases pair <;> rfl
  cases pair <;>
  · dsimp only
    rw [bindAt, matched, bindAt]
    simp only [beq_iff_eq]
    split <;> rfl

/- Between brackets that are closed in it a row makes no difference. -/
theorem skipBalanced (balanced : Balanced row) (facing : Facing (row ++ ks) s) :
    ∃ b' s', loop skipParensStep (d + 1, b) s = loop skipParensStep (d + 1, b') s' ∧ Facing ks s' := by
  induction balanced generalizing d b s ks with
  | nil => exact ⟨b, s, rfl, facing⟩
  | @one k plain =>
    have : k.Proper := ⟨by rintro rfl; cases plain⟩
    exact ⟨false, _, skipPlain plain facing, facing.next⟩
  | append _ _ first second =>
    rw [List.append_assoc] at facing
    obtain ⟨_, _, same, facing⟩ := first (d := d) (b := b) facing
    rw [same]
    exact second facing
  | @group p q inner pair _ inside =>
    have row : .punct p :: (inner ++ [.punct q]) ++ ks = .punct p :: (inner ++ .punct q :: ks) := by simp
    rw [row] at facing
    obtain ⟨_, s', same, facing'⟩ := inside (d := d + 1) (b := false) facing.next
    refine ⟨false, (advance s').2, ?_, facing'.next⟩
    rw [skipOpening pair facing, same]
    refine loopGoes turnsSkipParens facing'.ordered ?_
    rw [closingStep pair facing', if_neg (by omega)]
    rfl

end

theorem skipsGroup (balanced : Balanced inner)
    (facing : Facing (.punct .openParen :: (inner ++ .punct .closeParen :: rest)) s) :
    ∃ s', skipParenthesized s = (true, s') ∧ Facing rest s' := by
  obtain ⟨b, s', same, facing'⟩ := skipBalanced (d := 0) (b := false) balanced facing.next
  refine ⟨(advance s').2, ?_, facing'.next⟩
  have last : loop skipParensStep (1, b) s' = ((0, true), (advance s').2) :=
    loopStops (by rw [closingStep .parens facing']; rfl)
  have whole : loop skipParensStep (0, false) s = ((0, true), (advance s').2) := by
    rw [skipOpening .parens facing, same, last]
  unfold skipParenthesized
  rw [bindAt, facing.isAt]
  show (bind (loop _ _) _ : Parse Bool) s = _
  rw [bindAt, whole]
  rfl

theorem facingReport (fault : SyntaxFault) : Preserves (Facing ks) (reportHere fault) := fun s facing =>
  ⟨reportOrdered facing.ordered _ _ _,
    (congrArg (List.map Token.kind) (reportAhead s fault)).trans facing.kinds⟩

/- In front of an arrow a name is the whole of a type. -/
theorem namedType (facing : Facing (.identifier :: .punct .arrow :: rest) s) :
    Facing (.punct .arrow :: rest) (typeReference s).2 := by
  have arrow := facing.next
  have dotless (name : String) : dottedStep name (advance s).2 = (.done name, (advance s).2) := by
    unfold dottedStep
    rw [bindAt, dottedLooks, arrow.current]
    rfl
  have head : typeHead s = (s.cursor.current.value, (advance s).2) := by
    unfold typeHead
    rw [bindAt, seesToken]
    dsimp only
    rw [facing.current]
    exact loopStops (dotless _)
  have scanned (x : TypeScan) (begun : x.pending = []) (plain : x.previous = .unknown) :
      loop typeStep x (advance s).2 = (x, (advance s).2) := by
    refine loopStops ?_
    rw [typeStepAt, if_pos]
    rw [TypeScan.endsBefore, arrow.current, begun, plain]
    rfl
  have add {n : Nat → Node} : Preserves (Facing (.punct .arrow :: rest))
      (prevStop >>= fun stop => addNode (n stop)) := fun _ facing => ⟨facing.ordered, facing.kinds⟩
  unfold typeReference
  rw [bindAt, seesHere, bindAt, head, bindAt, scanned _ rfl rfl]
  exact Preserves.branch (fun _ => add) (fun _ => .next (facingReport _) fun _ => add) _ arrow

/- The colon and the name behind the parenthesis are taken for a result type. -/
theorem arrowMistaken (balanced : Balanced inner) (facing : Facing (.punct .openParen ::
      (inner ++ .punct .closeParen :: .punct .colon :: .identifier :: .punct .arrow :: rest)) s) :
    (startsArrowFunction s).1 = true := by
  obtain ⟨s', group, behind⟩ := skipsGroup balanced facing
  have type : Facing (.punct .arrow :: rest) (optionalType s').2 := by
    unfold optionalType
    rw [bindAt, acceptThere behind.current]
    exact namedType behind.next
  have follows : (arrowFollows s).1 = true := by
    unfold arrowFollows
    rw [bindAt, facing.kind]
    dsimp only
    rw [bindAt, facing.isAt]
    show ((bind skipParenthesized _ : Parse Bool) s).1 = true
    rw [bindAt, group]
    exact congrArg Prod.fst (type.isAt (.punct .arrow))
  exact (startsUnmarked (facing.current.trans_ne nofun)).trans follows

/-! ### The colon that is missed -/

/- What is left behind a token stands behind its first place. -/
theorem suffixBehind {front : List TokenKind} (absent : k ∉ front)
    (part : k :: ks <:+ front ++ k :: rest) : ks <:+ rest := by
  induction front with
  | nil =>
    rcases List.suffix_cons_iff.mp part with same | further
    · exact (List.cons.inj same).2 ▸ List.suffix_refl ks
    · exact (List.suffix_cons k ks).trans further
  | cons l front ih =>
    rcases List.suffix_cons_iff.mp part with same | further
    · exact absurd ((List.cons.inj same).1 ▸ List.mem_cons_self) absent
    · exact ih (fun there => absent (List.mem_cons_of_mem l there)) further

/- A fault was reported, or no colon is left. -/
def Lacking (s : ParseState) : Prop := s.cursor.errors ≠ [] ∨ .punct .colon ∉ s.cursor.kinds

theorem lackingSame {s' : ParseState} (same : s'.cursor = s.cursor) (lacking : Lacking s) :
    Lacking s' := by
  unfold Lacking
  rwa [same]

section
variable {α : Type} [Refs α] {r : Nat} {a : Progress} {f f' : Parse α} (h : Reads none r a f f')
  (ordered : s.cursor.Ordered)
include h ordered

theorem readsFaulty (faulty : s.cursor.errors ≠ []) : (f s).2.cursor.errors ≠ [] := by
  obtain ⟨_, trace, _⟩ := (h s ordered (by rintro c ⟨⟩)).2.trace
  exact fun clean => faulty (traceClean trace clean)

theorem readsLacking (lacking : Lacking s) : Lacking (f s).2 :=
  lacking.imp (readsFaulty h ordered) fun without there =>
    without ((runKinds (h.run ordered)).subset there)

end

theorem expectLacks (ordered : s.cursor.Ordered)
    (without : s.cursor.current.kind = k → .punct .colon ∉ (advance s).2.cursor.kinds) :
    Lacking (expect k s).2 := by
  by_cases there : s.cursor.current.kind = k
  · rw [expectThere there]
    exact .inr (without there)
  · rw [expectElse there]
    exact .inl (reportFails ordered _)

/- What is nested too deeply is a fault. -/
theorem nestedLacks {body : Parse Slot} (ordered : s.cursor.Ordered)
    (inside : Lacking (body { s with depth := s.depth + 1 }).2) : Lacking (nested missing body s).2 := by
  by_cases full : maxNesting ≤ s.depth
  · have fails := reportFails ordered .nestedTooDeeply
    unfold nested
    rw [bindAt, enterFull full]
    exact .inl fails
  · unfold nested
    rw [bindAt, enterRoom (Nat.lt_of_not_le full)]
    exact lackingSame rfl inside

theorem colonMissed (ordered : s.cursor.Ordered)
    (lacking : s.cursor.current.kind = .punct .colon → Lacking s) :
    (expect (.punct .colon) s).2.cursor.errors ≠ [] := by
  by_cases there : s.cursor.current.kind = .punct .colon
  · have faulty := (lacking there).resolve_right fun without => without (there ▸ List.mem_cons_self)
    exact readsFaulty (readsExpect _) ordered faulty
  · rw [expectElse there]
    exact reportFails ordered _

section
variable {sub : SubParse} (h : Agree none sub sub) (absent : .punct .arrow ∉ inner)
  (colonless : .punct .colon ∉ rest)
include h absent colonless

/- Either the arrow is taken, and what is left is behind it, or it is missed, and that is a fault. -/
theorem arrowRestLacks (ordered : s.cursor.Ordered)
    (part : s.cursor.kinds <:+ inner ++ .punct .arrow :: rest) (start : Nat) (async : Bool)
    (params : NodeList) : Lacking (arrowRest sub start async params s).2 := by
  have typed := (readsOptionalType (b := none)).run ordered
  have ordered₁ := runOrdered typed ordered
  have part₁ := (runKinds typed).trans part
  generalize behind : (optionalType s).2 = s₁ at ordered₁ part₁
  have lacking : Lacking (expect (.punct .arrow) s₁).2 := by
    refine expectLacks ordered₁ fun there => ?_
    have facing : Facing (.punct .arrow :: s₁.cursor.upcoming.map Token.kind) s₁ :=
      ⟨ordered₁, congrArg (· :: _) there⟩
    rw [facing.next.kinds]
    rw [facing.kinds] at part₁
    exact fun colon => colonless ((suffixBehind absent part₁).subset colon)
  have ordered₂ := runOrdered ((readsExpect (b := none) (.punct .arrow)).run ordered₁) ordered₁
  subst behind
  unfold arrowRest
  rw [bindAt, bindAt, bindAt, seesIsAt]
  split
  · have body := readsLacking h.block ordered₂ lacking
    exact lackingSame rfl body
  · have body := readsLacking h.assignment ordered₂ lacking
    exact lackingSame rfl body

theorem arrowFunctionLacks (ordered : s.cursor.Ordered)
    (part : s.cursor.kinds <:+ inner ++ .punct .arrow :: rest)
    (paren : s.cursor.current.kind = .punct .openParen) : Lacking (arrowFunction sub s).2 := by
  have params := (readsArrowParameters h).run ordered
  show Lacking ((ite ((s.cursor.current.kind == .identifier && s.cursor.current.value == "async") = true)
    _ _ : Parse Slot) s).2
  rw [notContextual (paren.trans_ne nofun)]
  exact arrowRestLacks h absent colonless (runOrdered params ordered) ((runKinds params).trans part)
    s.cursor.current.start false _

end

section
variable {fuel : Nat} (balanced : Balanced inner) (absent : .punct .arrow ∉ inner)
  (colonless : .punct .colon ∉ rest)
include balanced absent colonless

theorem assignmentLacks (facing : Facing (.punct .openParen ::
      (inner ++ .punct .closeParen :: .punct .colon :: .identifier :: .punct .arrow :: rest)) s) :
    Lacking (assignment (production fuel) s).2 := by
  refine nestedLacks facing.ordered ?_
  have deeper := facing.same { s with depth := s.depth + 1 } rfl
  generalize { s with depth := s.depth + 1 } = s₁ at deeper
  have looked := deeper.same (startsArrowFunction s₁).2 rfl
  have starts : startsArrowFunction s₁ = (true, (startsArrowFunction s₁).2) :=
    Prod.ext (arrowMistaken balanced deeper) rfl
  generalize (startsArrowFunction s₁).2 = s₂ at looked starts
  rw [bindAt, deeper.isAt]
  show Lacking ((bind startsArrowFunction _ : Parse Slot) s₁).2
  rw [bindAt, starts]
  have absent' : .punct .arrow ∉ .punct .openParen :: inner ++
      [.punct .closeParen, .punct .colon, .identifier] := by simpa using absent
  have lacking := arrowFunctionLacks (productionAgrees fuel) absent' colonless looked.ordered
    (by rw [looked.kinds]; simp) looked.current
  exact lacking

/- A conditional whose middle stands in parentheses and whose last branch is an arrow function is a fault,
unless another colon stands further on. -/
theorem arrowBranchFails (facing : Facing (.punct .question :: .punct .openParen ::
      (inner ++ .punct .closeParen :: .punct .colon :: .identifier :: .punct .arrow :: rest)) s)
    (start : Nat) (test : Slot) :
    (assignmentRest (production fuel) start test s).2.cursor.errors ≠ [] := by
  have agree := productionAgrees fuel
  have middle := facing.next.same { (advance s).2 with inForbidden := false } rfl
  obtain ⟨s₂, read⟩ : ∃ s₂, (withInForbidden false (production fuel .assignment) (advance s).2).2 = s₂ :=
    ⟨_, rfl⟩
  have after := runOrdered (agree.assignment.run middle.ordered) middle.ordered
  have ordered₂ : s₂.cursor.Ordered := read ▸ after
  have lacking : s₂.cursor.current.kind = .punct .colon → Lacking s₂ := by
    subst read
    cases fuel with
    | zero => exact fun colon => absurd (middle.current.symm.trans colon) nofun
    | succ fuel => exact fun _ => lackingSame rfl (assignmentLacks balanced absent colonless middle)
  have ordered₃ := runOrdered ((readsExpect (b := none) (.punct .colon)).run ordered₂) ordered₂
  have faulty := readsFaulty agree.assignment ordered₃ (colonMissed ordered₂ lacking)
  unfold assignmentRest
  rw [bindAt, facing.kind]
  subst read
  exact faulty

end

/- So it is with every expression in the parentheses. -/
theorem expressionBranchFails {fuel : Nat} (e : Expr) (colonless : .punct .colon ∉ rest)
    (facing : Facing (.punct .question :: ((Expr.paren e).marks.map Mark.kind ++
      .punct .colon :: .identifier :: .punct .arrow :: rest)) s) (start : Nat) (test : Slot) :
    (assignmentRest (production fuel) start test s).2.cursor.errors ≠ [] := by
  have absent : .punct .arrow ∉ e.marks.map Mark.kind := fun there => by
    obtain ⟨m, member, same⟩ := List.mem_map.mp there
    exact e.noArrow m member same
  exact arrowBranchFails e.balanced absent colonless
    (by simpa [Expr.marks, Mark.kind] using facing) start test

/- Without an arrow in the last branch there is no fault, and none with another colon behind it. -/
example :
    let errors (text : String) := (Program.statements (Program.tokensOf text.toList)).2.cursor.errors
    errors "c ? (1) : x => b;" ≠ [] ∧ errors "c ? 1 : x => b;" = [] ∧ errors "c ? (1) : x;" = [] ∧
      errors "c ? (a) : x => b : d;" = [] := by decide +kernel

end Parse
end CallGuard
