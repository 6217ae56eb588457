import CallGuard.Proofs.Parser.Course

/-! What a reader does token by token. A trace lists the tokens that are taken outside look-ahead:
the end token is never taken, and every other one is taken off the front of those that are left. A
strict trace also tells that each node takes a token as long as nothing is reported; the traces of a
reader that was cut short are not strict. -/
namespace CallGuard

/- The token at hand and all tokens behind it. -/
def Cursor.ahead (c : Cursor) : List Token := c.current :: c.upcoming

namespace Parse

inductive Trace (strict : Bool) : ParseState → List Token → List NodeId → ParseState → Prop where
  | rest (s) : Trace strict s [] [] s
  | chain {s s' s'' ts us ids more} (before : Trace strict s ts ids s')
      (after : Trace strict s' us more s'') : Trace strict s (ts ++ us) (ids ++ more) s''
  | forget {s s' ts ids fewer} (part : fewer.Sublist ids) (before : Trace strict s ts ids s') :
      Trace strict s ts fewer s'
  | take {s} (more : s.cursor.current.isEnd = false) :
      Trace strict s [s.cursor.current] [] (advance s).2
  | report (s fault) : Trace strict s [] [] (reportHere fault s).2
  | look {s s' ts ids} (inner : Trace strict s ts ids s') :
      Trace strict s [] [] { s' with cursor := s.cursor }
  | nest {s s' ts ids} (room : s.depth < maxNesting)
      (inner : Trace strict { s with depth := s.depth + 1 } ts ids s') :
      Trace strict s ts ids { s' with depth := s'.depth - 1 }
  | within {s s' ts ids} (forbidden : Bool)
      (inner : Trace strict { s with inForbidden := forbidden } ts ids s') :
      Trace strict s ts ids { s' with inForbidden := s.inForbidden }
  | node {s s' ts ids} {n : Node} (before : Trace strict s ts ids s') (inner : n.Inner)
      (root : n.parent? = none) (place : n.start = s.cursor.current.start) (kids : n.kids = ids)
      (links : n.links.Perm ids) (moves : n.kind.takesToken = true → ts ≠ [])
      (stops : ts ≠ [] → n.stop = s'.cursor.prevStop)
      (takes : strict = true → s'.cursor.errors = [] → ts ≠ []) :
      Trace strict s ts [s'.tree.size] { s' with tree := s'.tree.add n }
  | hole {s} (more : s.cursor.current.isEnd = false) :
      Trace strict s [s.cursor.current] [s.tree.size]
        (advance { s with tree := s.tree.add (omitted s.cursor.current.start) }).2
  | flags (s i marks) : Trace strict s [] [] { s with tree := s.tree.addFlags i marks }
  | stretch {s s' ts i} (before : Trace strict s ts [i] s') :
      Trace strict s ts [i] { s' with tree := s'.tree.setStop i s'.cursor.prevStop }

section
variable {strict : Bool} {s s' : ParseState} {ts : List Token} {looks : List Look} {ids : List NodeId}

/- A course without its look-aheads. -/
theorem courseTrace (course : Course strict s ts looks ids s') : Trace strict s ts ids s' := by
  induction course with
  | rest s => exact .rest s
  | chain _ _ one two => exact .chain one two
  | forget part _ ih => exact .forget part ih
  | take more => exact .take more
  | report s fault => exact .report s fault
  | look _ _ ih => exact .look ih
  | nest room _ ih => exact .nest room ih
  | within forbidden _ ih => exact .within forbidden ih
  | node _ inner root place kids links moves stops takes _ ih =>
    exact .node ih inner root place kids links moves stops takes
  | hole more => exact .hole more
  | flags s i _ => exact .flags s i _
  | stretch _ ih => exact .stretch ih

theorem takeAhead (ordered : s.cursor.Ordered) (more : s.cursor.current.isEnd = false) :
    s.cursor.ahead = s.cursor.current :: s.cursor.next.ahead := by
  obtain ⟨⟨current, upcoming, _, _, _⟩, _, _, _⟩ := s
  cases upcoming with
  | cons t ts => rfl
  | nil =>
    cases ordered.row with
    | last ends => exact absurd (ends.symm.trans more) Bool.noConfusion
    | more _ _ _ rest => cases rest

theorem reportAhead (s : ParseState) (fault : SyntaxFault) :
    (reportHere fault s).2.cursor.ahead = s.cursor.ahead := by
  show (s.cursor.report _ _ _).ahead = _
  unfold Cursor.report
  split <;> rfl

theorem bareAgrees (kind : NodeKind) (start stop : Nat) : (Node.bare kind start stop).Agrees := by
  intro p own
  cases own

/- A trace is a run that takes its tokens off the front. -/
theorem traceRun (trace : Trace strict s ts ids s') (ordered : s.cursor.Ordered) :
    Run s ids s' ∧ s.cursor.ahead = ts ++ s'.cursor.ahead := by
  induction trace with
  | rest s => exact ⟨.rest s, rfl⟩
  | chain _ _ one two =>
    obtain ⟨run, ahead⟩ := one ordered
    obtain ⟨run', ahead'⟩ := two (runOrdered run ordered)
    exact ⟨.chain run run', by rw [ahead, ahead', List.append_assoc]⟩
  | forget part _ ih => exact ⟨.forget part (ih ordered).1, (ih ordered).2⟩
  | @take s more => exact ⟨.advance s, takeAhead ordered more⟩
  | report s fault => exact ⟨.report s fault, (reportAhead s fault).symm⟩
  | look _ ih => exact ⟨.look (ih ordered).1, rfl⟩
  | nest room _ ih => exact ⟨.nest room (ih ordered).1, (ih ordered).2⟩
  | within forbidden _ ih => exact ⟨.within forbidden (ih ordered).1, (ih ordered).2⟩
  | @node s s' ts ids n _ inner root place kids links moves _ _ ih =>
    obtain ⟨run, ahead⟩ := ih ordered
    refine ⟨.node run inner root place kids links fun call => ?_, ahead⟩
    have taken := List.length_pos_iff.mpr (moves (Bool.or_eq_true_iff.mpr (.inl call)))
    have lengths := congrArg List.length ahead
    simp only [Cursor.ahead, List.length_cons, List.length_append] at lengths
    omega
  | @hole s more =>
    have inner : (omitted s.cursor.current.start).Inner := ⟨bareAgrees _ _ _, nofun⟩
    refine ⟨?_, takeAhead ordered more⟩
    exact .chain (.node (.rest s) inner rfl rfl rfl (.refl _) fun call => Bool.noConfusion call)
      (.advance _)
  | flags s i marks => exact ⟨.flags s i marks, rfl⟩
  | stretch _ ih => exact ⟨.chain (ih ordered).1 (.stop _ _ _), (ih ordered).2⟩

theorem traceOrdered (trace : Trace strict s ts ids s') (ordered : s.cursor.Ordered) :
    s'.cursor.Ordered :=
  runOrdered (traceRun trace ordered).1 ordered

theorem traceLength (trace : Trace strict s ts ids s') (ordered : s.cursor.Ordered) :
    s.cursor.upcoming.length = ts.length + s'.cursor.upcoming.length := by
  have lengths := congrArg List.length (traceRun trace ordered).2
  simp only [Cursor.ahead, List.length_cons, List.length_append] at lengths
  omega

/- Faults are only ever added. -/
theorem traceErrors (trace : Trace strict s ts ids s') : s.cursor.errors <:+ s'.cursor.errors := by
  induction trace with
  | rest => exact List.suffix_refl _
  | chain _ _ one two => exact one.trans two
  | forget _ _ ih => exact ih
  | @take s _ =>
    show _ <:+ s.cursor.next.errors
    unfold Cursor.next
    split <;> exact List.suffix_refl _
  | report s fault =>
    show _ <:+ (s.cursor.report _ _ _).errors
    unfold Cursor.report
    split
    · exact List.suffix_refl _
    · exact List.suffix_cons _ _
  | look => exact List.suffix_refl _
  | nest _ _ ih => exact ih
  | within _ _ ih => exact ih
  | node _ _ _ _ _ _ _ _ _ ih => exact ih
  | @hole s _ =>
    show _ <:+ s.cursor.next.errors
    unfold Cursor.next
    split <;> exact List.suffix_refl _
  | flags => exact List.suffix_refl _
  | stretch _ ih => exact ih

theorem traceClean (trace : Trace strict s ts ids s') (clean : s'.cursor.errors = []) :
    s.cursor.errors = [] :=
  List.suffix_nil.mp (clean ▸ traceErrors trace)

theorem reportFails (ordered : s.cursor.Ordered) (fault : SyntaxFault) :
    (reportHere fault s).2.cursor.errors ≠ [] := by
  show (s.cursor.report _ _ _).errors ≠ []
  unfold Cursor.report
  split
  · rename_i there
    exact ordered.reported (by simp [there])
  · exact List.cons_ne_nil _ _

/- A trace that takes nothing stays where it is, and any other moves on. -/
theorem traceStill (trace : Trace strict s [] ids s') (ordered : s.cursor.Ordered) :
    s'.cursor.current = s.cursor.current :=
  (List.cons.inj (traceRun trace ordered).2).1.symm

theorem tracePlace (trace : Trace strict s ts ids s') (ordered : s.cursor.Ordered) :
    s.cursor.current.start ≤ s'.cursor.current.start ∧
      (ts ≠ [] → s.cursor.current.start < s'.cursor.current.start) := by
  obtain ⟨le, lt⟩ := runPlace (traceRun trace ordered).1 ordered
  refine ⟨le, fun some => lt ?_⟩
  have taken := List.length_pos_iff.mpr some
  have lengths := traceLength trace ordered
  omega

theorem traceStop (trace : Trace strict s ts ids s') (ordered : s.cursor.Ordered) :
    s.cursor.prevStop ≤ s'.cursor.prevStop ∧ (ts ≠ [] → s.cursor.current.start < s'.cursor.prevStop) := by
  obtain ⟨le, lt⟩ := runStop (traceRun trace ordered).1 ordered
  refine ⟨le, fun some => lt ?_⟩
  have taken := List.length_pos_iff.mpr some
  have lengths := traceLength trace ordered
  omega

end

/-! ### Progress -/

/- What is known of the tokens that a construct has taken so far: nothing, or that there is one as
long as nothing was reported, or that there is one. -/
inductive Progress
  | begun | tried | moved
  deriving DecidableEq

/- Room for as much as is asked for. -/
class Within (n m : Nat) : Prop where
  le : n ≤ m

instance (m : Nat) : Within 0 m := ⟨Nat.zero_le m⟩
instance (m : Nat) : Within m m := ⟨Nat.le_refl m⟩
instance (n m : Nat) [fits : Within n m] : Within (n + 1) (m + 1) := ⟨Nat.succ_le_succ fits.le⟩

namespace Progress

def Made (strict : Bool) (ts : List Token) (errors : List SyntaxError) : Progress → Prop
  | begun => True
  | tried => strict = true → errors = [] → ts ≠ []
  | moved => ts ≠ []

/- What is known behind a part of which the second is known. -/
@[reducible] def and : Progress → Progress → Progress
  | moved, _ => moved
  | m, begun => m
  | _, a => a

/- Knowing the first is knowing the second. -/
class Gives (m n : Progress) : Prop where
  same : m.and n = m

instance (m : Progress) : m.Gives m := ⟨by cases m <;> rfl⟩
instance (m : Progress) : m.Gives begun := ⟨by cases m <;> rfl⟩
instance (m : Progress) : moved.Gives m := ⟨rfl⟩

/- How much nesting may follow where `r` is the nesting to come in front of the construct: each token
that was taken makes room. -/
@[reducible] def room (r : Nat) : Progress → Nat
  | moved => r + 8
  | _ => r

variable {strict : Bool} {m n a : Progress} {ts us : List Token} {errors errors' : List SyntaxError}

theorem madeGives [gives : m.Gives n] (made : m.Made strict ts errors) : n.Made strict ts errors := by
  cases m <;> cases n
  all_goals first
    | exact made
    | exact trivial
    | exact fun _ _ => made
    | cases gives.same

theorem madeAnd (one : m.Made strict ts errors) (two : a.Made strict us errors')
    (grow : errors <:+ errors') : (m.and a).Made strict (ts ++ us) errors' := by
  have clean (h : errors' = []) : errors = [] := List.suffix_nil.mp (h ▸ grow)
  cases m <;> cases a
  all_goals first
    | exact trivial
    | exact fun h clean' => List.append_ne_nil_of_left_ne_nil (one h (clean clean')) us
    | exact fun h clean' => List.append_ne_nil_of_right_ne_nil ts (two h clean')
    | exact List.append_ne_nil_of_left_ne_nil one us
    | exact List.append_ne_nil_of_right_ne_nil ts two

end Progress

/- Whether the tokens left are few enough for `r` more levels of productions. Without a budget any
number will do. -/
def Affords (budget : Option Nat) (r : Nat) (s : ParseState) : Prop :=
  ∀ c ∈ budget, 8 * s.cursor.upcoming.length + r ≤ c

/- A construct that began in the state `s₀` is under way, and `ids` were made for it. -/
structure Held (b : Option Nat) (r : Nat) (m : Progress) (s₀ : ParseState) (ids : List NodeId)
    (s : ParseState) : Prop where
  ordered : s₀.cursor.Ordered
  fits : Affords b r s₀
  course : ∃ ts looks, Course b.isSome s₀ ts looks ids s ∧ m.Made b.isSome ts s.cursor.errors

section
variable {b : Option Nat} {r r' : Nat} {m n a : Progress} {s₀ s s' : ParseState}
  {looks : List Look} {ids more part : List NodeId}

theorem Affords.fewer [less : Within r' r] (fits : Affords b r s) : Affords b r' s :=
  fun c bound => Nat.le_trans (Nat.add_le_add_left less.le _) (fits c bound)

theorem Held.begin (ordered : s.cursor.Ordered) (fits : Affords b r s) : Held b r .begun s [] s :=
  ⟨ordered, fits, [], [], .rest s, trivial⟩

theorem Held.trace (held : Held b r m s₀ ids s) :
    ∃ ts, Trace b.isSome s₀ ts ids s ∧ m.Made b.isSome ts s.cursor.errors := by
  obtain ⟨ts, _, course, made⟩ := held.course
  exact ⟨ts, courseTrace course, made⟩

theorem Held.still (held : Held b r m s₀ ids s) : s.cursor.Ordered := by
  obtain ⟨_, trace, _⟩ := held.trace
  exact traceOrdered trace held.ordered

theorem Held.run (held : Held b r m s₀ ids s) : Run s₀ ids s := by
  obtain ⟨_, trace, _⟩ := held.trace
  exact (traceRun trace held.ordered).1

theorem Held.room (held : Held b r m s₀ ids s) : Affords b (m.room r) s := by
  obtain ⟨ts, trace, made⟩ := held.trace
  have lengths := traceLength trace held.ordered
  intro c bound
  have enough := held.fits c bound
  cases m with
  | begun | tried =>
    simp only [Progress.room]
    omega
  | moved =>
    have taken := List.length_pos_iff.mpr made
    simp only [Progress.room]
    omega

theorem Held.chain (held : Held b r m s₀ ids s) {ts : List Token}
    (course : Course b.isSome s ts looks more s') (made : a.Made b.isSome ts s'.cursor.errors) :
    Held b r (m.and a) s₀ (ids ++ more) s' := by
  obtain ⟨us, _, before, made'⟩ := held.course
  exact ⟨held.ordered, held.fits, us ++ ts, _, .chain before course,
    Progress.madeAnd made' made (traceErrors (courseTrace course))⟩

theorem Held.and (held : Held b r m s₀ ids s) (next : Held b r' a s more s') :
    Held b r (m.and a) s₀ (ids ++ more) s' := by
  obtain ⟨ts, _, course, made⟩ := next.course
  exact held.chain course made

theorem Held.quiet (held : Held b r m s₀ ids s) (course : Course b.isSome s [] looks [] s') :
    Held b r m s₀ ids s' := by
  have made : Progress.begun.Made b.isSome [] s'.cursor.errors := trivial
  have after := held.chain course made
  rw [List.append_nil] at after
  cases m <;> exact after

theorem Held.take (held : Held b r m s₀ ids s) (more : s.cursor.current.isEnd = false) :
    Held b r .moved s₀ ids (advance s).2 := by
  have made : Progress.moved.Made b.isSome [s.cursor.current] (advance s).2.cursor.errors :=
    List.cons_ne_nil _ _
  have after := held.chain (.take more) made
  rw [List.append_nil] at after
  cases m <;> exact after

theorem Held.less [m.Gives n] (held : Held b r m s₀ ids s) (fewer : part.Sublist ids) :
    Held b r n s₀ part s := by
  obtain ⟨ts, looks, course, made⟩ := held.course
  exact ⟨held.ordered, held.fits, ts, looks, .forget fewer course, Progress.madeGives made⟩

end

end Parse
end CallGuard
