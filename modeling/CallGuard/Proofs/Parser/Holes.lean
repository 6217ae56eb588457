import CallGuard.Proofs.Phrase.Parts

/-! Every hole in a tree is reported. A node that stands in for a missing one begins where a fault was
reported, also where that fault was kept back because one had been reported there before. Without a
fault there is no such node, and nothing is absent that a construct must have. -/
namespace CallGuard

namespace Payload

/- The places that a construct never leaves empty where the text has no fault. -/
def mandatory (kind : NodeKind) : Payload → List Slot
  | .binary b => [b.left, b.right]
  | .unary u => [u.operand]
  | .operand inner => if kind = .yieldExpression then [] else [inner]
  | .call c => [c.callee]
  | .access a => [a.object, a.name]
  | .conditional c => [c.condition, c.whenTrue, c.whenFalse]
  | .parenthesized inner | .computedName inner | .expressionStatement inner => [inner]
  | .property p => [p.name]
  | .function f =>
    match kind with
    | .arrowFunction => [f.body]
    | .functionDeclaration | .methodDeclaration => [f.name]
    | _ => []
  | .parameter p => [p.name]
  | .field d | .declarator d => [d.name]
  | .branch b => [b.test, b.thenBranch]
  | .loop l => if kind = .forStatement then [l.body] else [l.condition, l.body]
  | .iteration i => [i.binding, i.subject, i.body]
  | .attempt a => [a.block]
  | .handler h => [h.block]
  | _ => []

end Payload

/- A node holds what its kind demands and lacks nothing that it must have. -/
structure Node.Complete (n : Node) : Prop where
  holds : n.payload?.map Payload.form = n.kind.form?
  filled : ∀ p ∈ n.payload?, ∀ s ∈ p.mandatory n.kind, s ≠ none

namespace Tree
variable {t : Tree} {n m : Node} {i j : NodeId}

/- Adding a node changes neither places nor marks. -/
theorem addMarks (found : (t.add n).get? i = some m) :
    ∃ k, (k = n ∨ t.get? i = some k) ∧ m.start = k.start ∧ m.flags = k.flags := by
  rw [addAt] at found
  obtain ⟨k, before, rfl⟩ := Option.map_eq_some_iff.mp found
  refine ⟨k, ?_, by split <;> rfl, by split <;> rfl⟩
  split at before
  · exact .inl (Option.some.inj before).symm
  · exact .inr before

theorem modifyMarks {f : Node → Node} (same : ∀ n : Node, (f n).start = n.start)
    (found : ({ t with nodes := t.nodes.modify j f } : Tree).get? i = some m) :
    ∃ k, t.get? i = some k ∧ m.start = k.start ∧ (m.flags = k.flags ∨ m.flags = (f k).flags) := by
  simp only [get?, Array.getElem?_modify] at found
  split at found
  · obtain ⟨k, before, rfl⟩ := Option.map_eq_some_iff.mp found
    exact ⟨k, before, same k, .inr rfl⟩
  · exact ⟨m, found, rfl, .inl rfl⟩

theorem flagsMarks {marks : NodeFlags} (found : (t.addFlags j marks).get? i = some m) :
    ∃ k, t.get? i = some k ∧ m.start = k.start ∧ (m.flags = k.flags ∨ m.flags = k.flags ||| marks) :=
  modifyMarks (f := fun n => { n with flags := n.flags ||| marks }) (fun _ => rfl) found

theorem stopMarks {stop : Nat} (found : (t.setStop j stop).get? i = some m) :
    ∃ k, t.get? i = some k ∧ m.start = k.start ∧ m.flags = k.flags := by
  obtain ⟨k, old, start, flags⟩ :=
    modifyMarks (f := fun n => { n with stop := stop }) (fun _ => rfl) found
  exact ⟨k, old, start, flags.elim id id⟩

end Tree

namespace Parse

/- The place reported last and all places of holes are places of faults. -/
structure Honest (s : ParseState) : Prop where
  last : ∀ place ∈ s.cursor.lastErrorAt, ∃ e ∈ s.cursor.errors, e.start = place
  holes : ∀ i n, s.tree.get? i = some n → n.isMissing = true → ∃ e ∈ s.cursor.errors, e.start = n.start

theorem reportHonest {s : ParseState} (honest : Honest s) (fault : SyntaxFault) :
    Honest (reportHere fault s).2 := by
  show Honest { s with cursor := s.cursor.report _ _ _ }
  unfold Cursor.report
  split
  · exact honest
  · refine ⟨?_, fun i n found hole => ?_⟩
    · rintro place ⟨⟩
      exact ⟨_, List.mem_cons_self, rfl⟩
    · obtain ⟨e, listed, place⟩ := honest.holes i n found hole
      exact ⟨e, List.mem_cons_of_mem _ listed, place⟩

theorem advanceHonest {s : ParseState} (honest : Honest s) : Honest (advance s).2 := by
  have same : s.cursor.next.errors = s.cursor.errors ∧ s.cursor.next.lastErrorAt = s.cursor.lastErrorAt := by
    unfold Cursor.next
    split <;> exact ⟨rfl, rfl⟩
  refine ⟨?_, ?_⟩
  · show ∀ place ∈ s.cursor.next.lastErrorAt, ∃ e ∈ s.cursor.next.errors, _
    rw [same.1, same.2]
    exact honest.last
  · show ∀ i n, s.tree.get? i = some n → _ → ∃ e ∈ s.cursor.next.errors, _
    rw [same.1]
    exact honest.holes

theorem notHole {n : Node} {place : Option Nat} (real : n.isMissing = false) :
    n.isMissing = true → place = some n.start :=
  fun hole => Bool.noConfusion (real.symm.trans hole)

/- A node that is no hole, or a hole at the place reported last. -/
theorem addHonest {s : ParseState} {n : Node} (honest : Honest s)
    (own : n.isMissing = true → s.cursor.lastErrorAt = some n.start) :
    Honest { s with tree := s.tree.add n } := by
  refine ⟨honest.last, fun i m found hole => ?_⟩
  obtain ⟨k, origin, start, flags⟩ := Tree.addMarks found
  rw [Node.isMissing, flags] at hole
  rw [start]
  rcases origin with rfl | old
  · exact honest.last k.start (own hole)
  · exact honest.holes i k old hole

/- Looking ahead adds no hole. -/
theorem tracelessHonest {s s' : ParseState} (honest : Honest s) (traceless : Traceless s s') : Honest s' := by
  obtain ⟨added, nodes, stray⟩ := traceless.nodes
  refine ⟨traceless.cursor ▸ honest.last, fun i n found hole => ?_⟩
  rw [traceless.cursor]
  have there : (s.tree.nodes.toList ++ added)[i]? = some n := by
    rw [← nodes, Array.getElem?_toList]
    exact found
  rw [List.getElem?_append] at there
  split at there
  · rw [Array.getElem?_toList] at there
    exact honest.holes i n there hole
  · rw [Node.isMissing, (stray n (List.mem_of_getElem? there)).plain] at hole
    cases hole

/- Each step keeps the faults that holes need. -/
theorem courseHonest {strict : Bool} {s s' : ParseState} {ts : List Token} {looks : List Look}
    {ids : List NodeId} (course : Course strict s ts looks ids s') (honest : Honest s) : Honest s' := by
  induction course with
  | rest => exact honest
  | chain _ _ one two => exact two (one honest)
  | forget _ _ ih => exact ih honest
  | take => exact advanceHonest honest
  | report s fault => exact reportHonest honest fault
  | look way => exact tracelessHonest honest (way.traceless _)
  | nest _ _ ih =>
    obtain ⟨last, holes⟩ := ih ⟨honest.last, honest.holes⟩
    exact ⟨last, holes⟩
  | within _ _ ih =>
    obtain ⟨last, holes⟩ := ih ⟨honest.last, honest.holes⟩
    exact ⟨last, holes⟩
  | node _ _ _ _ _ _ _ _ _ own ih => exact addHonest (ih honest) own
  | hole => exact advanceHonest (addHonest honest (notHole NodeFlags.realNone))
  | flags s j real =>
    refine ⟨honest.last, fun i m found hole => ?_⟩
    obtain ⟨k, old, start, flags⟩ := Tree.flagsMarks found
    rw [start]
    refine honest.holes i k old ?_
    rcases flags with same | more
    · rwa [Node.isMissing, same] at hole
    · by_contra there
      rw [Node.isMissing, more, NodeFlags.realOr (Bool.eq_false_of_not_eq_true there) real] at hole
      cases hole
  | stretch _ ih =>
    obtain ⟨last, holes⟩ := ih honest
    refine ⟨last, fun i m found hole => ?_⟩
    obtain ⟨k, old, start, flags⟩ := Tree.stopMarks found
    rw [Node.isMissing, flags] at hole
    exact start ▸ holes i k old hole

end Parse

namespace Phrase

variable {c : Category} {kind : NodeKind} {s : Slot} {row : List Part}

theorem testedThere (tested : Tested s row) : s ≠ none := by
  cases tested
  exact Option.some_ne_none _

theorem statedThere (stated : Stated s row) : s ≠ none := by
  cases stated <;> exact Option.some_ne_none _

theorem beginsThere (begins : Begins s row) : s ≠ none := by
  cases begins <;> exact Option.some_ne_none _

theorem iteratesForm {k : TokenKind} (loops : Iterates kind k) : kind.form? = some .iteration := by
  cases loops <;> rfl

theorem exitsForm {k : TokenKind} (exits : Exits kind k) : kind.form? = some .exit := by
  cases exits <;> rfl

theorem jumpsForm {k : TokenKind} (jumps : Jumps kind k) : kind.form? = some .jump := by
  cases jumps <;> rfl

theorem headedForm (headed : Headed c kind s row) : kind.form? = some .function := by
  cases headed <;> rfl

theorem headedThere {f : Function} (headed : Headed c kind f.name row) :
    ∀ s ∈ (Payload.function f).mandatory kind, s ≠ none := by
  obtain ⟨name, _, _, _⟩ := f
  cases headed <;> simp [Payload.mandatory]

/- What the rules make of a node leaves no place empty that must be filled. -/
theorem madeComplete {payload : Option Payload} (made : Made c kind payload row) :
    payload.map Payload.form = kind.form? ∧ ∀ p ∈ payload, ∀ s ∈ p.mandatory kind, s ≠ none := by
  have bare {kind : NodeKind} (form : kind.form? = none) : (none : Option Payload).map Payload.form =
      kind.form? ∧ ∀ p ∈ (none : Option Payload), ∀ s ∈ p.mandatory kind, s ≠ none := ⟨form.symm, nofun⟩
  have held {kind : NodeKind} {p : Payload} (form : kind.form? = some p.form)
      (filled : ∀ s ∈ p.mandatory kind, s ≠ none) : (some p).map Payload.form = kind.form? ∧
      ∀ q ∈ some p, ∀ s ∈ q.mandatory kind, s ≠ none :=
    ⟨form.symm, fun _ own => Option.some.inj own ▸ filled⟩
  cases made with
  | constant kind => rcases kind with kind | kind | kind | kind | kind <;> exact bare (by rw [kind]; rfl)
  | bound kind => exact bare (by rw [kind]; rfl)
  | hole | empty => exact bare rfl
  | literal _ kind =>
    exact held (by rcases kind with kind | kind | kind <;> rw [kind] <;> rfl) nofun
  | parameter _ name | declarator name | field _ name =>
    exact held rfl (by simp [Payload.mandatory, name])
  | function headed => exact held (headedForm headed) (headedThere headed)
  | arrow _ _ _ _ _ _ body => exact held rfl (by simp [Payload.mandatory, body])
  | branch _ tested stated =>
    exact held rfl (by simp [Payload.mandatory, testedThere tested, statedThere stated])
  | repeated _ tested stated =>
    exact held rfl (by simp [Payload.mandatory, testedThere tested, statedThere stated])
  | done _ stated _ tested =>
    exact held rfl (by simp [Payload.mandatory, testedThere tested, statedThere stated])
  | counted _ _ _ _ _ _ _ _ _ stated => exact held rfl (by simp [Payload.mandatory, statedThere stated])
  | iterated _ _ _ begins loops _ stated =>
    exact held (iteratesForm loops)
      (by simp [Payload.mandatory, beginsThere begins, statedThere stated])
  | exits word => exact held (exitsForm word) nofun
  | jumps word => exact held (jumpsForm word) nofun
  | _ => exact held rfl (by simp [Payload.mandatory])

end Phrase

namespace Program
open Parse Phrase

theorem initialHonest (tokens : List Token) : Honest (initialState tokens) := by
  refine ⟨?_, fun i n found => ?_⟩
  · cases tokens <;> rintro place ⟨⟩
  · rw [initialTree] at found
    cases found

end Program
end CallGuard
