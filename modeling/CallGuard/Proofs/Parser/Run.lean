import CallGuard.Analysis.Suspension
import CallGuard.Parser.Program
import CallGuard.Proofs.Token.Row
import CallGuard.Proofs.Tree.Grows

/-! What reading a program can do, as one relation between states. A reader takes tokens, reports
faults, looks ahead and adds nodes; its answer names nodes that it made and that have no parent
yet, in the order of the text. What holds of every program is shown by induction on this relation. -/
namespace CallGuard

/- The tokens that are left stand in a row, and a place is only marked as reported together with
a fault. -/
structure Cursor.Ordered (c : Cursor) : Prop where
  row : Token.Row c.prevStop (c.current :: c.upcoming)
  reported : c.lastErrorAt ≠ none → c.errors ≠ []

/- The kinds of the token at hand and of all tokens behind it. -/
def Cursor.kinds (c : Cursor) : List TokenKind := (c.current :: c.upcoming).map (·.kind)

/- Calls have their parentheses or a `new`, and suspensions have their word. -/
def NodeKind.takesToken (k : NodeKind) : Bool := k.isCall || k.isSuspension

/- Neither a call nor a suspension nor a whole file, and with its children where it says that they are. -/
def NodeKind.isPlain : NodeKind → Bool
  | .sourceFile | .doStatement => false
  | k => !k.takesToken

structure NodeKind.Plain (k : NodeKind) : Prop where
  takes : k.takesToken = false
  inside : k ≠ .sourceFile
  ordered : k ≠ .doStatement

theorem plainKind {k : NodeKind} (plain : k.isPlain = true) : k.Plain := by
  unfold NodeKind.isPlain at plain
  split at plain
  · cases plain
  · cases plain
  · exact ⟨(Bool.not_eq_true' _).mp plain, ‹_›, ‹_›⟩

theorem fileKind {k : NodeKind} (form : k.form? = some .sourceFile) : k = .sourceFile := by
  unfold NodeKind.form? at form
  split at form <;> cases form
  rfl

/- A node inside a file. -/
structure Node.Inner (n : Node) : Prop where
  agrees : n.Agrees
  inside : n.kind ≠ .sourceFile

namespace Parse

/- A node takes the nodes that were made since the place where it starts, and a call takes a token. -/
inductive Run : ParseState → List NodeId → ParseState → Prop where
  | rest (s) : Run s [] s
  | chain {s s' s'' ids more} (before : Run s ids s') (after : Run s' more s'') :
      Run s (ids ++ more) s''
  | forget {s s' ids fewer} (part : fewer.Sublist ids) (before : Run s ids s') : Run s fewer s'
  | advance (s) : Run s [] (advance s).2
  | report (s fault) : Run s [] (reportHere fault s).2
  | look {s s' ids} (inner : Run s ids s') : Run s [] { s' with cursor := s.cursor }
  | nest {s s' ids} (room : s.depth < maxNesting)
      (inner : Run { s with depth := s.depth + 1 } ids s') :
      Run s ids { s' with depth := s'.depth - 1 }
  | within {s s' ids} (forbidden : Bool) (inner : Run { s with inForbidden := forbidden } ids s') :
      Run s ids { s' with inForbidden := s.inForbidden }
  | node {s s' ids} {n : Node} (before : Run s ids s') (inner : n.Inner) (root : n.parent? = none)
      (place : n.start = s.cursor.current.start) (kids : n.kids = ids) (links : n.links.Perm ids)
      (moves : n.kind.isCall = true → s'.cursor.upcoming.length < s.cursor.upcoming.length) :
      Run s [s'.tree.size] { s' with tree := s'.tree.add n }
  | flags (s i marks) : Run s [] { s with tree := s.tree.addFlags i marks }
  | stop (s i stop) : Run s [] { s with tree := s.tree.setStop i stop }

/-! ### What answers name -/

def present (slots : List Slot) : List NodeId := slots.filterMap id

class Refs (α : Type) where
  refs : α → List NodeId

export Refs (refs)

instance (priority := low) quiet {α : Type} : Refs α := ⟨fun _ => []⟩
instance : Refs Slot := ⟨Option.toList⟩
/- Loops collect the items of a row last first. -/
instance : Refs (List Slot) := ⟨fun items => present items.reverse⟩
instance : Refs NodeList := ⟨fun l => present l.items⟩
instance : Refs (Option NodeList) := ⟨fun l => present ((l.map (·.items)).getD [])⟩
instance {σ : Type} [Refs σ] : Refs (ForInStep σ) := ⟨fun s => refs s.value⟩

/- Answers that name no nodes. -/
class Quiet (α : Type) [Refs α] : Prop where
  nothing : ∀ a : α, refs a = []

instance {α : Type} : @Quiet α quiet := @Quiet.mk α quiet fun _ => rfl
instance {σ : Type} [Refs σ] [h : Quiet σ] : Quiet (ForInStep σ) := ⟨fun s => h.nothing s.value⟩

section
variable {σ : Type} [Refs σ] (s : Slot) (slots more : List Slot) (l : NodeList) (a : σ)

theorem presentLinks (p : Payload) : p.links = present p.slots := rfl

theorem presentChildren (kind : NodeKind) (p : Payload) : p.childrenAs kind = present (p.inOrder kind) := rfl

@[simp] theorem presentNil : present [] = [] := rfl

@[simp] theorem presentCons : present (s :: slots) = s.toList ++ present slots := by
  cases s <;> rfl

@[simp] theorem presentAppend : present (slots ++ more) = present slots ++ present more :=
  List.filterMap_append

@[simp] theorem refsSlot : refs s = s.toList := rfl
@[simp] theorem refsNil : refs ([] : List Slot) = [] := rfl
@[simp] theorem refsRow : refs l = present l.items := rfl
@[simp] theorem refsDone : refs (ForInStep.done a) = refs a := rfl
@[simp] theorem refsYield : refs (ForInStep.yield a) = refs a := rfl
@[simp] theorem refsNone : refs (none : Option NodeList) = [] := rfl
@[simp] theorem refsSome : refs (some l) = present l.items := rfl

@[simp] theorem refsOptional (l : Option NodeList) :
    present ((l.map (·.items)).getD []) = refs l := rfl

@[simp] theorem refsCons : refs (s :: slots) = refs slots ++ s.toList := by
  show present (s :: slots).reverse = present slots.reverse ++ s.toList
  simp

end

/-! ### Readers -/

theorem nextOrdered {c : Cursor} (ordered : c.Ordered) : c.next.Ordered := by
  obtain ⟨current, upcoming, prevStop, errors, lastErrorAt⟩ := c
  obtain ⟨row, reported⟩ := ordered
  cases row with
  | last ends _ empty => exact ⟨.last ends (Nat.le_of_eq empty) empty, reported⟩
  | more _ _ _ rest =>
    cases upcoming with
    | nil => cases rest
    | cons t ts => exact ⟨rest, reported⟩

theorem reportOrdered {c : Cursor} (ordered : c.Ordered) (start length : Nat) (fault : SyntaxFault) :
    (c.report start length fault).Ordered := by
  unfold Cursor.report
  split
  · exact ordered
  · exact ⟨ordered.row, fun _ => List.cons_ne_nil _ _⟩

theorem runOrdered {s s' : ParseState} {ids : List NodeId} (run : Run s ids s')
    (ordered : s.cursor.Ordered) : s'.cursor.Ordered := by
  induction run with
  | rest => exact ordered
  | chain _ _ one two => exact two (one ordered)
  | forget _ _ ih => exact ih ordered
  | advance s => exact nextOrdered ordered
  | report s fault => exact reportOrdered ordered _ _ _
  | look => exact ordered
  | nest _ _ ih => exact ih ordered
  | within _ _ ih => exact ih ordered
  | node _ _ _ _ _ _ _ ih => exact ih ordered
  | flags => exact ordered
  | stop => exact ordered

theorem nextKinds (c : Cursor) : c.next.kinds <:+ c.kinds := by
  obtain ⟨current, upcoming, prevStop, errors, lastErrorAt⟩ := c
  cases upcoming with
  | nil => exact List.suffix_refl _
  | cons t ts => exact List.suffix_cons _ _

/- Tokens are only ever taken off the front. -/
theorem runKinds {s s' : ParseState} {ids : List NodeId} (run : Run s ids s') :
    s'.cursor.kinds <:+ s.cursor.kinds := by
  induction run with
  | rest => exact List.suffix_refl _
  | chain _ _ one two => exact two.trans one
  | forget _ _ ih => exact ih
  | advance s => exact nextKinds s.cursor
  | report s fault =>
    show (s.cursor.report _ _ _).kinds <:+ _
    unfold Cursor.report
    split <;> exact List.suffix_refl _
  | look => exact List.suffix_refl _
  | nest _ _ ih => exact ih
  | within _ _ ih => exact ih
  | node _ _ _ _ _ _ _ ih => exact ih
  | flags => exact List.suffix_refl _
  | stop => exact List.suffix_refl _

theorem runLength {s s' : ParseState} {ids : List NodeId} (run : Run s ids s') :
    s'.cursor.upcoming.length ≤ s.cursor.upcoming.length := by
  have fewer := (runKinds run).length_le
  simpa [Cursor.kinds] using fewer

theorem runGrows {s s' : ParseState} {ids : List NodeId} (run : Run s ids s') :
    s.tree.Grows s'.tree := by
  induction run with
  | rest => exact .refl _
  | chain _ _ one two => exact one.trans two
  | forget _ _ ih => exact ih
  | advance => exact .refl _
  | report => exact .refl _
  | look _ ih => exact ih
  | nest _ _ ih => exact ih
  | within _ _ ih => exact ih
  | node _ _ _ _ _ _ _ ih => exact ih.trans (Tree.growsAdd _ _)
  | flags => exact Tree.growsFlags _ _ _
  | stop => exact Tree.growsStop _ _ _

/- The text of a tree comes with the node of the whole file, and no reader makes that one. -/
theorem runText {s s' : ParseState} {ids : List NodeId} (run : Run s ids s') :
    s'.tree.text? = s.tree.text? := by
  induction run with
  | rest => rfl
  | chain _ _ one two => exact two.trans one
  | forget _ _ ih => exact ih
  | advance => rfl
  | report => rfl
  | look _ ih => exact ih
  | nest _ _ ih => exact ih
  | within _ _ ih => exact ih
  | node _ inner _ _ _ _ _ ih =>
    exact (Tree.addText fun f own => inner.inside (fileKind (inner.agrees _ own))).trans ih
  | flags => rfl
  | stop => rfl

/- Depth and mark are restored. -/
theorem runRestores {s s' : ParseState} {ids : List NodeId} (run : Run s ids s') :
    s'.depth = s.depth ∧ s'.inForbidden = s.inForbidden := by
  induction run with
  | rest => exact ⟨rfl, rfl⟩
  | chain _ _ one two => exact ⟨two.1.trans one.1, two.2.trans one.2⟩
  | forget _ _ ih => exact ih
  | advance => exact ⟨rfl, rfl⟩
  | report => exact ⟨rfl, rfl⟩
  | look _ ih => exact ih
  | nest _ _ ih => exact ⟨by rw [ih.1]; rfl, ih.2⟩
  | within _ _ ih => exact ⟨ih.1, rfl⟩
  | node _ _ _ _ _ _ _ ih => exact ih
  | flags => exact ⟨rfl, rfl⟩
  | stop => exact ⟨rfl, rfl⟩

/- Tokens that were taken are behind. -/
theorem nextPlace {c : Cursor} (ordered : c.Ordered) :
    c.current.start ≤ c.next.current.start ∧
      (c.next.upcoming.length < c.upcoming.length → c.current.start < c.next.current.start) := by
  obtain ⟨current, upcoming, prevStop, errors, lastErrorAt⟩ := c
  obtain ⟨row, _⟩ := ordered
  cases row with
  | last => exact ⟨Nat.le_refl _, fun less => absurd less (Nat.lt_irrefl _)⟩
  | more plain behind wide rest =>
    cases rest with
    | last _ behind' _ =>
      exact ⟨Nat.le_of_lt (Nat.lt_of_lt_of_le wide behind'), fun _ => Nat.lt_of_lt_of_le wide behind'⟩
    | more _ behind' _ _ =>
      exact ⟨Nat.le_of_lt (Nat.lt_of_lt_of_le wide behind'), fun _ => Nat.lt_of_lt_of_le wide behind'⟩

theorem runPlace {s s' : ParseState} {ids : List NodeId} (run : Run s ids s')
    (ordered : s.cursor.Ordered) :
    s.cursor.current.start ≤ s'.cursor.current.start ∧
      (s'.cursor.upcoming.length < s.cursor.upcoming.length →
        s.cursor.current.start < s'.cursor.current.start) := by
  have still (s : ParseState) (start : Nat) : start ≤ start ∧
      (s.cursor.upcoming.length < s.cursor.upcoming.length → start < start) :=
    ⟨Nat.le_refl _, fun less => absurd less (Nat.lt_irrefl _)⟩
  induction run with
  | rest s => exact still s _
  | @chain s s' s'' _ _ before after one two =>
    obtain ⟨le, lt⟩ := one ordered
    obtain ⟨le', lt'⟩ := two (runOrdered before ordered)
    refine ⟨Nat.le_trans le le', fun less => ?_⟩
    by_cases first : s'.cursor.upcoming.length < s.cursor.upcoming.length
    · exact Nat.lt_of_lt_of_le (lt first) le'
    · exact Nat.lt_of_le_of_lt le (lt' (Nat.lt_of_lt_of_le less (Nat.not_lt.mp first)))
  | forget _ _ ih => exact ih ordered
  | advance s => exact nextPlace ordered
  | report s fault =>
    show _ ≤ (s.cursor.report _ _ _).current.start ∧
      ((s.cursor.report _ _ _).upcoming.length < _ → _ < (s.cursor.report _ _ _).current.start)
    unfold Cursor.report
    split <;> exact still s _
  | look => exact still _ _
  | nest _ _ ih => exact ih ordered
  | within _ _ ih => exact ih ordered
  | node _ _ _ _ _ _ _ ih => exact ih ordered
  | flags => exact still _ _
  | stop => exact still _ _

/- The token taken last ends behind the place where reading began. -/
theorem runStop {s s' : ParseState} {ids : List NodeId} (run : Run s ids s')
    (ordered : s.cursor.Ordered) :
    s.cursor.prevStop ≤ s'.cursor.prevStop ∧
      (s'.cursor.upcoming.length < s.cursor.upcoming.length →
        s.cursor.current.start < s'.cursor.prevStop) := by
  have still (c : Cursor) : c.prevStop ≤ c.prevStop ∧
      (c.upcoming.length < c.upcoming.length → c.current.start < c.prevStop) :=
    ⟨Nat.le_refl _, fun less => absurd less (Nat.lt_irrefl _)⟩
  induction run with
  | rest s => exact still s.cursor
  | @chain s s' s'' _ _ before after one two =>
    obtain ⟨le, lt⟩ := one ordered
    obtain ⟨le', lt'⟩ := two (runOrdered before ordered)
    refine ⟨Nat.le_trans le le', fun less => ?_⟩
    by_cases first : s'.cursor.upcoming.length < s.cursor.upcoming.length
    · exact Nat.lt_of_lt_of_le (lt first) le'
    · exact Nat.lt_of_le_of_lt (runPlace before ordered).1
        (lt' (Nat.lt_of_lt_of_le less (Nat.not_lt.mp first)))
  | forget _ _ ih => exact ih ordered
  | advance s =>
    show _ ≤ s.cursor.next.prevStop ∧ (s.cursor.next.upcoming.length < _ → _ < s.cursor.next.prevStop)
    obtain ⟨⟨current, upcoming, prevStop, errors, lastErrorAt⟩, _, _, _⟩ := s
    obtain ⟨row, _⟩ := ordered
    cases row with
    | last _ behind empty =>
      exact ⟨Nat.le_trans behind (Nat.le_of_eq empty.symm), fun less => absurd less (Nat.lt_irrefl _)⟩
    | more _ behind wide rest =>
      cases upcoming with
      | nil => cases rest
      | cons t ts => exact ⟨Nat.le_trans behind (Nat.le_of_lt wide), fun _ => wide⟩
  | report s fault =>
    show _ ≤ (s.cursor.report _ _ _).prevStop ∧
      ((s.cursor.report _ _ _).upcoming.length < _ → _ < (s.cursor.report _ _ _).prevStop)
    unfold Cursor.report
    split <;> exact still s.cursor
  | look => exact still _
  | nest _ _ ih => exact ih ordered
  | within _ _ ih => exact ih ordered
  | node _ _ _ _ _ _ _ ih => exact ih ordered
  | flags => exact still _
  | stop => exact still _

end Parse
end CallGuard
