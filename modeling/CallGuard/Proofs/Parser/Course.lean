import CallGuard.Proofs.Parser.LookAhead
import CallGuard.Proofs.Parser.Run

/-! What a reader does, step by step. A course lists the tokens that are taken outside look-ahead and
the look-aheads in the order in which they begin, those inside others too. A node that stands in for
a missing one is made where a fault was reported last, and no mark makes a node such a one later. -/
namespace CallGuard

/- Marks of a node that is there. -/
def NodeFlags.Real (marks : NodeFlags) : Prop := marks.has .missing = false

instance (marks : NodeFlags) : Decidable marks.Real := inferInstanceAs (Decidable (_ = false))

theorem NodeFlags.realNone : NodeFlags.Real 0 := by decide

theorem NodeFlags.Real.of {marks more : NodeFlags} {c : Bool} (one : marks.Real) (two : more.Real) :
    NodeFlags.Real (if c then marks else more) := by
  cases c
  · exact two
  · exact one

theorem NodeFlags.realOr {marks more : NodeFlags} (one : marks.Real) (two : more.Real) :
    NodeFlags.Real (marks ||| more) := by
  simp only [Real, has, bne_eq_false_iff_eq] at *
  rw [Nat.and_or_distrib_right, one, two]
  rfl

namespace Parse

/- The node of an element that is left out, in front of a comma. -/
def omitted (place : Nat) : Node := .bare .omittedExpression place place

/- A look-ahead and the state in which it begins. -/
structure Look where
  way : LookAhead
  before : ParseState

/- The state in which a look-ahead has read all that it reads. -/
def Look.inside (l : Look) : ParseState := (l.way.body l.before).2

def Look.after (l : Look) : ParseState := (lookAhead l.way.body l.before).2

inductive Course (strict : Bool) :
    ParseState → List Token → List Look → List NodeId → ParseState → Prop where
  | rest (s) : Course strict s [] [] [] s
  | chain {s s' s'' ts us looks later ids more} (before : Course strict s ts looks ids s')
      (after : Course strict s' us later more s'') :
      Course strict s (ts ++ us) (looks ++ later) (ids ++ more) s''
  | forget {s s' ts looks ids fewer} (part : fewer.Sublist ids)
      (before : Course strict s ts looks ids s') : Course strict s ts looks fewer s'
  | take {s} (more : s.cursor.current.isEnd = false) :
      Course strict s [s.cursor.current] [] [] (advance s).2
  | report (s fault) : Course strict s [] [] [] (reportHere fault s).2
  | look {s ts looks ids} (way : LookAhead) (inner : Course strict s ts looks ids (way.body s).2) :
      Course strict s [] (⟨way, s⟩ :: looks) [] (lookAhead way.body s).2
  | nest {s s' ts looks ids} (room : s.depth < maxNesting)
      (inner : Course strict { s with depth := s.depth + 1 } ts looks ids s') :
      Course strict s ts looks ids { s' with depth := s'.depth - 1 }
  | within {s s' ts looks ids} (forbidden : Bool)
      (inner : Course strict { s with inForbidden := forbidden } ts looks ids s') :
      Course strict s ts looks ids { s' with inForbidden := s.inForbidden }
  | node {s s' ts looks ids} {n : Node} (before : Course strict s ts looks ids s') (inner : n.Inner)
      (root : n.parent? = none) (place : n.start = s.cursor.current.start) (kids : n.kids = ids)
      (links : n.links.Perm ids) (moves : n.kind.takesToken = true → ts ≠ [])
      (stops : ts ≠ [] → n.stop = s'.cursor.prevStop)
      (takes : strict = true → s'.cursor.errors = [] → ts ≠ [])
      (honest : n.isMissing = true → s'.cursor.lastErrorAt = some n.start) :
      Course strict s ts looks [s'.tree.size] { s' with tree := s'.tree.add n }
  | hole {s} (more : s.cursor.current.isEnd = false) :
      Course strict s [s.cursor.current] [] [s.tree.size]
        (advance { s with tree := s.tree.add (omitted s.cursor.current.start) }).2
  | flags (s i) {marks : NodeFlags} (real : marks.Real) :
      Course strict s [] [] [] { s with tree := s.tree.addFlags i marks }
  | stretch {s s' ts looks i} (before : Course strict s ts looks [i] s') :
      Course strict s ts looks [i] { s' with tree := s'.tree.setStop i s'.cursor.prevStop }

end Parse
end CallGuard
