import CallGuard.Proofs.Parser.Program

/-! The word `in` in the head of a `for` loop. Parentheses, arguments and the index of an element are
read in the same way whether `in` is forbidden around them or not. The other brackets leave the mark as
they find it too, but what stands in them is read as it says. -/
namespace CallGuard.Parse

/- A reader to which it makes no difference whether `in` is forbidden, and that leaves this as it is. -/
def Blind {α : Type} (p : Parse α) : Prop :=
  ∀ s forbidden, p { s with inForbidden := forbidden } =
    ((p s).1, { (p s).2 with inForbidden := forbidden })

namespace Blind
variable {α β : Type} {p q : Parse α} {f : α → Parse β}

theorem restores (blind : Blind p) (s : ParseState) : (p s).2.inForbidden = s.inForbidden :=
  congrArg (fun answer => answer.2.inForbidden) (blind s s.inForbidden)

theorem pure (x : α) : Blind (Pure.pure x) := fun _ _ => rfl

theorem bind (first : Blind p) (rest : ∀ x, Blind (f x)) : Blind (p >>= f) := by
  intro s forbidden
  rw [bindAt, first s forbidden]
  exact rest (p s).1 (p s).2 forbidden

theorem branch {c : Prop} [Decidable c] (yes : Blind p) (no : Blind q) : Blind (if c then p else q) := by
  split
  · exact yes
  · exact no

/- Whatever is read with the mark set anew does not see the old one. -/
theorem within (forbidden : Bool) (p : Parse α) : Blind (withInForbidden forbidden p) := fun _ _ => rfl

theorem here : Blind here := fun _ _ => rfl
theorem prevStop : Blind prevStop := fun _ _ => rfl
theorem advance : Blind advance := fun _ _ => rfl
theorem isAt (k : TokenKind) : Blind (isAt k) := fun _ _ => rfl
theorem report (fault : SyntaxFault) : Blind (reportHere fault) := fun _ _ => rfl
theorem node (n : Node) : Blind (addNode n) := fun _ _ => rfl

theorem accept (k : TokenKind) : Blind (accept k) :=
  .bind (.isAt k) fun _ => .branch (.bind .advance fun _ => .pure true) (.pure false)

theorem expect (k : TokenKind) : Blind (expect k) :=
  .bind (.accept k) fun _ => .branch (.pure ()) (.report _)

theorem finish (kind : NodeKind) (start : Nat) (p : Payload) : Blind (finish kind start p) :=
  .bind .prevStop fun _ => .node _

theorem finishAccess (kind : NodeKind) (start : Nat) (a : Access) : Blind (finishAccess kind start a) :=
  .bind .prevStop fun _ => .node _

theorem row (start : Nat) (items : List Slot) : Blind (listFrom start items) :=
  .bind .prevStop fun _ => .pure _

end Blind

section
variable (sub : SubParse)

theorem parenthesizedBlind : Blind (parenthesized sub) :=
  .bind .here fun _ => .bind (.expect _) fun _ => .bind (.within _ _) fun _ =>
    .bind (.expect _) fun _ => .finish _ _ _

theorem argumentsBlind : Blind (arguments sub) :=
  .bind .here fun _ => .bind (.expect _) fun _ => .bind (.within _ _) fun _ =>
    .bind (.expect _) fun _ => .row _ _

theorem elementBlind (start : Nat) (object : Slot) (optional : Bool) :
    Blind (elementRest sub start object optional) :=
  .bind (.expect _) fun _ => .bind (.within _ _) fun _ => .bind (.expect _) fun _ =>
    .finishAccess _ _ _

end

section
variable {α : Type} [Refs α] {r : Nat} {a : Progress} {t : Token} {p p' : Parse α} {s : ParseState}

theorem readsRestores (h : Reads none r a p p') (ordered : s.cursor.Ordered) :
    (p s).2.inForbidden = s.inForbidden :=
  (runRestores (h.run ordered)).2

theorem readsRestoresAt (h : ReadsAt none r a t p p') (there : s.cursor.current = t)
    (ordered : s.cursor.Ordered) : (p s).2.inForbidden = s.inForbidden :=
  (runRestores (h s there ordered (by rintro c ⟨⟩)).2.run).2

/- Every production leaves the mark as it finds it, and so do the brackets that pass it on. -/
theorem bracketsRestore (fuel : Nat) (ordered : s.cursor.Ordered) :
    let sub := production fuel
    (s.cursor.current.kind = .punct .openBracket → (arrayLiteral sub s).2.inForbidden = s.inForbidden) ∧
    (s.cursor.current.kind = .punct .openBrace → (objectLiteral sub s).2.inForbidden = s.inForbidden) ∧
    (propertyName sub s).2.inForbidden = s.inForbidden ∧
    (parameters sub s).2.inForbidden = s.inForbidden ∧
    (block sub s).2.inForbidden = s.inForbidden := by
  intro sub
  have agree := productionAgrees fuel
  exact ⟨fun there => readsRestoresAt (readsArrayLiteral agree there) rfl ordered,
    fun there => readsRestoresAt (readsObjectLiteral agree there) rfl ordered,
    readsRestores (readsPropertyName agree) ordered, readsRestores (readsParameters agree) ordered,
    readsRestores (readsBlock agree) ordered⟩

/- Where a fault depends on the mark, the mark is seen. -/
theorem seesMark {α : Type} {p : Parse α} (s : ParseState)
    (differ : (p { s with inForbidden := true }).2.cursor.errors.length ≠ (p s).2.cursor.errors.length) :
    ¬ Blind p :=
  fun blind => differ (congrArg (fun answer => answer.2.cursor.errors.length) (blind s true))

/- An `in` in these brackets ends the expression where it is forbidden around them. -/
theorem bracketsSee :
    let sub := production 40
    ¬ Blind (arrayLiteral sub) ∧ ¬ Blind (objectLiteral sub) ∧ ¬ Blind (propertyName sub) ∧
      ¬ Blind (parameters sub) ∧ ¬ Blind (block sub) := by
  let text (s : String) := Program.initialState (Program.tokensOf s.toList)
  exact ⟨seesMark (text "[a in b]") (by decide +kernel), seesMark (text "\x7b p: a in b \x7d") (by decide +kernel),
    seesMark (text "[a in b]: c") (by decide +kernel), seesMark (text "(p = a in b)") (by decide +kernel),
    seesMark (text "\x7b a in b; \x7d") (by decide +kernel)⟩

/- The head of a loop and a statement of its own. -/
example :
    let errors (s : String) := (Program.statements (Program.tokensOf s.toList)).2.cursor.errors
    errors "for (x = [a in b]; ; ) ;" ≠ [] ∧ errors "for (x = (a in b); ; ) ;" = [] ∧
      errors "x = [a in b];" = [] := by decide +kernel

end

end CallGuard.Parse
