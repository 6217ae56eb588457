import CallGuard.Proofs.Parser.Reader
import CallGuard.Proofs.Tree.Placeless
import Mathlib.Logic.Relator

/-! Reading two rows of tokens side by side. The tokens are alike but for their places, and a place in one
row corresponds to at most one in the other. Readers compare places only with one another, so both runs
take the same branches: they answer alike, make the same nodes and report the same faults at corresponding
places. -/
namespace CallGuard

/-- Which offsets of two texts correspond to each other. -/
structure Places where
  same : Nat → Nat → Prop
  unique : Relator.BiUnique same

/- Places are the same place in one text where they are in the other. -/
theorem Places.agree (P : Places) {i j i' j' : Nat} (one : P.same i i') (two : P.same j j') :
    i' = j' ↔ i = j := by
  constructor
  · rintro rfl
    exact P.unique.1 one two
  · rintro rfl
    exact P.unique.2 one two

theorem Places.equals (P : Places) {i j i' j' : Nat} (one : P.same i i') (two : P.same j j') :
    (i' == j') = (i == j) := by
  rw [Bool.eq_iff_iff, beq_iff_eq, beq_iff_eq]
  exact P.agree one two

/- A fault of the grammar, not of a single token. -/
def SyntaxFault.ofGrammar : SyntaxFault → Bool
  | .lexical _ => false
  | _ => true

section
variable (P : Places)

structure Token.Like (t t' : Token) : Prop where
  kind : t'.kind = t.kind
  value : t'.value = t.value
  afterLineBreak : t'.afterLineBreak = t.afterLineBreak
  start : P.same t.start t'.start

structure SyntaxError.Like (e e' : SyntaxError) : Prop where
  fault : e'.fault = e.fault
  grammar : e.fault.ofGrammar = true
  start : P.same e.start e'.start

structure Cursor.Like (c c' : Cursor) : Prop where
  current : c.current.Like P c'.current
  upcoming : List.Forall₂ (Token.Like P) c.upcoming c'.upcoming
  errors : List.Forall₂ (SyntaxError.Like P) c.errors c'.errors
  lastErrorAt : Option.Rel P.same c.lastErrorAt c'.lastErrorAt

structure ParseState.Like (s s' : ParseState) : Prop where
  cursor : s.cursor.Like P s'.cursor
  depth : s'.depth = s.depth
  inForbidden : s'.inForbidden = s.inForbidden
  tree : s.tree.Like s'.tree

end

variable {P : Places}

/- A token that is like another one is that token at its own place. -/
theorem Token.Like.moved {t t' : Token} (like : t.Like P t') :
    { t with fullStart := t'.fullStart, start := t'.start, stop := t'.stop } = t' := by
  obtain ⟨kind, fullStart, start, stop, value, afterLineBreak⟩ := t
  obtain ⟨kind', fullStart', start', stop', value', afterLineBreak'⟩ := t'
  obtain ⟨rfl, rfl, rfl, _⟩ := like
  rfl

theorem Cursor.Like.next {c c' : Cursor} (like : c.Like P c') : c.next.Like P c'.next := by
  obtain ⟨current, upcoming, prevStop, errors, lastErrorAt⟩ := c
  obtain ⟨current', upcoming', prevStop', errors', lastErrorAt'⟩ := c'
  obtain ⟨now, later, same, last⟩ := like
  cases later with
  | nil => exact ⟨⟨now.kind, now.value, rfl, now.start⟩, .nil, same, last⟩
  | cons first later => exact ⟨first, later, same, last⟩

theorem Cursor.Like.report {c c' : Cursor} (like : c.Like P c') {start start' : Nat} (length length' : Nat)
    {fault : SyntaxFault} (grammar : fault.ofGrammar = true) (place : P.same start start') :
    (c.report start length fault).Like P (c'.report start' length' fault) := by
  have before : c.lastErrorAt = some start ↔ c'.lastErrorAt = some start' := by
    have last := like.lastErrorAt
    cases at? : c.lastErrorAt <;> cases at'? : c'.lastErrorAt <;> rw [at?, at'?] at last <;> cases last
    · exact ⟨nofun, nofun⟩
    · rename_i i i' same
      rw [Option.some_inj, Option.some_inj]
      exact (P.agree same place).symm
  unfold Cursor.report
  by_cases there : c.lastErrorAt = some start
  · rw [if_pos there, if_pos (before.mp there)]
    exact like
  · rw [if_neg there, if_neg (fun h => there (before.mpr h))]
    exact ⟨like.current, like.upcoming, .cons ⟨rfl, grammar, place⟩ like.errors, .some place⟩

namespace Parse

/-- Two readers that answer alike, and leave states alike, wherever they start in states alike. -/
def Alike (P : Places) {α : Type} (A : α → α → Prop) (p p' : Parse α) : Prop :=
  ∀ s s', s.Like P s' → A (p s).1 (p' s').1 ∧ (p s).2.Like P (p' s').2

/-- The same, with one and the same answer. -/
abbrev Same (P : Places) {α : Type} (p p' : Parse α) : Prop := Alike P Eq p p'

/-- Rows of children that differ in nothing but their spans. -/
def RowLike (l l' : NodeList) : Prop := l'.placeless = l.placeless

def RowLike? (l l' : Option NodeList) : Prop := l'.map NodeList.placeless = l.map NodeList.placeless

section
variable {α β σ : Type} {A : α → α → Prop} {B : β → β → Prop} {p p' q q' : Parse α} {f f' : α → Parse β}

/-! ### Putting readers together -/

namespace Alike

theorem pure {x x' : α} (like : A x x') : Alike P A (Pure.pure x) (Pure.pure x') :=
  fun _ _ before => ⟨like, before⟩

theorem same {x : α} : Same P (Pure.pure x : Parse α) (Pure.pure x) := pure rfl

theorem bind (first : Alike P A p p') (rest : ∀ x x', A x x' → Alike P B (f x) (f' x')) :
    Alike P B (p >>= f) (p' >>= f') := by
  intro s s' before
  obtain ⟨answers, between⟩ := first s s' before
  exact rest _ _ answers _ _ between

theorem next (first : Same P p p') (rest : ∀ x, Alike P B (f x) (f' x)) :
    Alike P B (p >>= f) (p' >>= f') :=
  bind first fun x _ same => same ▸ rest x

theorem branch {c : Prop} [Decidable c] (yes : Alike P A p p') (no : Alike P A q q') :
    Alike P A (if c then p else q) (if c then p' else q') := by
  split
  · exact yes
  · exact no

/- Branches on tests that come out alike. -/
theorem branchSame {c c' : Bool} (same : c' = c) (yes : Alike P A p p') (no : Alike P A q q') :
    Alike P A (if c = true then p else q) (if c' = true then p' else q') := by
  rw [same]
  exact branch yes no

theorem map {g : α → β} (first : Alike P A p p') (rest : ∀ x x', A x x' → B (g x) (g x')) :
    Alike P B (g <$> p) (g <$> p') := by
  intro s s' before
  obtain ⟨answers, after⟩ := first s s' before
  exact ⟨rest _ _ answers, after⟩

/-! ### Looking -/

theorem here {f f' : Nat → Parse β} (rest : ∀ i i', P.same i i' → Alike P B (f i) (f' i')) :
    Alike P B (Parse.here >>= f) (Parse.here >>= f') :=
  fun _ _ before => rest _ _ before.cursor.current.start _ _ before

theorem prevStop {f f' : Nat → Parse β} (rest : ∀ i i', Alike P B (f i) (f' i')) :
    Alike P B (Parse.prevStop >>= f) (Parse.prevStop >>= f') :=
  fun _ _ before => rest _ _ _ _ before

/- A token and the one beside it, which is the same token at another place. -/
theorem token {f f' : Token → Parse β}
    (rest : ∀ (t : Token) (fullStart start stop : Nat), P.same t.start start →
      Alike P B (f t) (f' { t with fullStart, start, stop })) :
    Alike P B (Parse.token >>= f) (Parse.token >>= f') := by
  intro s s' before
  have after := rest s.cursor.current s'.cursor.current.fullStart s'.cursor.current.start
    s'.cursor.current.stop before.cursor.current.start s s' before
  rwa [before.cursor.current.moved] at after

theorem forbidden {f f' : ParseState → Parse β}
    (rest : ∀ s s' : ParseState, s'.inForbidden = s.inForbidden → Alike P B (f s) (f' s')) :
    Alike P B (get >>= f) (get >>= f') :=
  fun s s' before => rest s s' before.inForbidden s s' before

end Alike

theorem sameKind : Same P kind kind := fun _ _ before => ⟨before.cursor.current.kind.symm, before⟩

theorem sameIsAt (k : TokenKind) : Same P (isAt k) (isAt k) := .next sameKind fun _ => .same

theorem sameLineBreak : Same P afterLineBreak afterLineBreak :=
  fun _ _ before => ⟨before.cursor.current.afterLineBreak.symm, before⟩

theorem sameContextual (word : String) : Same P (isContextual word) (isContextual word) :=
  .token fun _ _ _ _ _ => .same

theorem sameCanEnd : Same P canEndStatement canEndStatement := .token fun _ _ _ _ _ => .same

theorem sameLook (inner : Alike P A p p') : Alike P A (lookAhead p) (lookAhead p') := by
  intro s s' before
  obtain ⟨answers, after⟩ := inner s s' before
  exact ⟨answers, before.cursor, after.depth, after.inForbidden, after.tree⟩

/-! ### Moving on -/

theorem sameAdvance : Same P advance advance := fun _ _ before =>
  ⟨rfl, before.cursor.next, before.depth, before.inForbidden, before.tree⟩

theorem sameReport (fault : SyntaxFault) (grammar : fault.ofGrammar = true) :
    Same P (reportHere fault) (reportHere fault) := fun _ _ before =>
  ⟨rfl, before.cursor.report _ _ grammar before.cursor.current.start, before.depth, before.inForbidden,
    before.tree⟩

theorem sameAccept (k : TokenKind) : Same P (accept k) (accept k) :=
  .next (sameIsAt k) fun _ => .branch (.next sameAdvance fun _ => .same) .same

theorem Alike.accept {f f' : Bool → Parse β} {k : TokenKind} (yes : Alike P B (f true) (f' true))
    (no : Alike P B (f false) (f' false)) : Alike P B (Parse.accept k >>= f) (Parse.accept k >>= f') :=
  .next (sameAccept k) fun taken => by cases taken <;> assumption

theorem sameExpect (k : TokenKind) : Same P (expect k) (expect k) :=
  .next (sameAccept k) fun _ => .branch .same (sameReport _ rfl)

theorem sameEndStatement : Same P endStatement endStatement :=
  .next (sameAccept _) fun _ => .branch .same (.next sameCanEnd fun _ => .branch .same (sameExpect _))

/-! ### Nesting -/

theorem sameEnter : Same P enter enter := by
  intro s s' before
  by_cases room : s.depth < maxNesting
  · have room' : s'.depth < maxNesting := before.depth ▸ room
    rw [enterRoom room, enterRoom room']
    exact ⟨rfl, before.cursor, congrArg (· + 1) before.depth, before.inForbidden, before.tree⟩
  · have full' : maxNesting ≤ s'.depth := before.depth ▸ Nat.not_lt.mp room
    rw [enterFull (Nat.not_lt.mp room), enterFull full']
    exact ⟨rfl, (sameReport _ rfl s s' before).2⟩

theorem sameLeave : Same P leave leave := fun _ _ before =>
  ⟨rfl, before.cursor, congrArg (· - 1) before.depth, before.inForbidden, before.tree⟩

theorem sameNested (no : Same P q q') (yes : Same P p p') : Same P (nested q p) (nested q' p') :=
  .next sameEnter fun _ => .branch (.next yes fun _ => .next sameLeave fun _ => .same) no

theorem sameWithin (forbidden : Bool) (inner : Same P p p') :
    Same P (withInForbidden forbidden p) (withInForbidden forbidden p') := by
  intro s s' before
  obtain ⟨answers, after⟩ := inner { s with inForbidden := forbidden } { s' with inForbidden := forbidden }
    ⟨before.cursor, before.depth, rfl, before.tree⟩
  exact ⟨answers, after.cursor, after.depth, before.inForbidden, after.tree⟩

/-! ### Repetition -/

theorem sameRepeat {step step' : σ → Parse (ForInStep σ)} (each : ∀ x, Same P (step x) (step' x))
    {rounds rounds' : List Token} (many : List.Forall₂ (Token.Like P) rounds rounds') (x : σ) :
    Same P (repeatOver step rounds x) (repeatOver step' rounds' x) := by
  induction many generalizing x with
  | nil =>
    refine .next (each x) fun y => ?_
    cases y <;> exact .same
  | cons _ _ ih =>
    refine .next (each x) fun y => ?_
    cases y with
    | done y => exact .same
    | yield y => exact ih y

theorem sameLoop {step step' : σ → Parse (ForInStep σ)} (each : ∀ x, Same P (step x) (step' x)) (x : σ) :
    Same P (loop step x) (loop step' x) :=
  fun s s' before => sameRepeat each before.cursor.upcoming x s s' before

/-! ### Nodes -/

theorem sameAddNode {n n' : Node} (like : n'.placeless = n.placeless) : Same P (addNode n) (addNode n') :=
  fun _ _ before => ⟨congrArg some before.tree.size.symm, before.cursor, before.depth, before.inForbidden,
    Tree.likeAdd before.tree like⟩

theorem sameFinish {kind : NodeKind} {start start' : Nat} {x x' : Payload}
    (like : x'.placeless = x.placeless) : Same P (finish kind start x) (finish kind start' x') := by
  refine .prevStop fun _ _ => sameAddNode ?_
  simp only [Node.placeless, Node.holding, Option.map_some, like]

theorem sameFlags (i : Slot) (flags : NodeFlags) : Same P (addFlags i flags) (addFlags i flags) := by
  cases i with
  | none => exact .same
  | some i => exact fun _ _ before => ⟨rfl, before.cursor, before.depth, before.inForbidden,
      Tree.likeFlags before.tree i flags⟩

theorem likeRow (start start' : Nat) (items : List Slot) :
    Alike P RowLike (listFrom start items) (listFrom start' items) :=
  .prevStop fun _ _ => .pure rfl

theorem sameMissing : Same P missing missing := .here fun _ _ _ => sameAddNode rfl

theorem sameAnyName : Same P anyName anyName :=
  .token fun _ _ _ _ _ => .branch (.next sameAdvance fun _ => sameAddNode rfl)
    (.next (sameReport _ rfl) fun _ => sameMissing)

theorem sameName : Same P name name :=
  .next (sameIsAt _) fun _ => .branch sameAnyName (.next (sameReport _ rfl) fun _ => sameMissing)

theorem sameBareToken : Same P bareToken bareToken :=
  .token fun _ _ _ _ _ => .next sameAdvance fun _ => sameAddNode rfl

theorem sameLiteral : Same P literal literal :=
  .token fun _ _ _ _ _ => .next sameAdvance fun _ => sameAddNode rfl

end

end Parse
end CallGuard
