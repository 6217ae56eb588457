import CallGuard.Proofs.Expression.Spelling
import CallGuard.Proofs.Parser.Placed

/-! What a reader does where the text is as expected: it takes the tokens of what it reads, reports
nothing and answers with a node. One rule for each thing that a reader is made of. -/
namespace CallGuard

def Cursor.lexes (c : Cursor) : List Lex := (c.current :: c.upcoming).map Token.lex

/- A node of a kind and with a payload is in a place. -/
def Tree.Carries (t : Tree) (s : Slot) (kind : NodeKind) (payload? : Option Payload) : Prop :=
  ∃ i n, s = some i ∧ t.get? i = some n ∧ n.kind = kind ∧ n.payload? = payload?

theorem Tree.carriesGrows {t t' : Tree} {s : Slot} {kind : NodeKind} {payload? : Option Payload}
    (grows : t.Grows t') (holds : t.Carries s kind payload?) : t'.Carries s kind payload? := by
  obtain ⟨i, n, same, found, form, held⟩ := holds
  obtain ⟨m, found', alike⟩ := grows i n found
  exact ⟨i, m, same, found', alike.kind.trans form, alike.payload.trans held⟩

namespace Parse

/- The text goes on with these tokens. No arrow function is among them, and `in` is an operator. -/
structure Ready (s : ParseState) (ahead : List Lex) : Prop where
  ordered : s.cursor.Ordered
  lexes : s.cursor.lexes = ahead
  arrows : ∀ l ∈ ahead, l.kind ≠ .punct .arrow
  free : s.inForbidden = false

structure Calm (s s' : ParseState) : Prop where
  errors : s'.cursor.errors = s.cursor.errors
  depth : s'.depth = s.depth
  grows : s.tree.Grows s'.tree

theorem Calm.refl (s : ParseState) : Calm s s := ⟨rfl, rfl, .refl _⟩

theorem Calm.trans {s s' s'' : ParseState} (one : Calm s s') (two : Calm s' s'') : Calm s s'' :=
  ⟨two.errors.trans one.errors, two.depth.trans one.depth, one.grows.trans two.grows⟩

/- Reading goes well and stops before the tokens `rest`. -/
def Delivers {α : Type} (p : Parse α) (s : ParseState) (rest : List Lex) (Q : Tree → α → Prop) :
    Prop :=
  ∃ a s', p s = (a, s') ∧ Ready s' rest ∧ Calm s s' ∧ Q s'.tree a

section
variable {s s' : ParseState} {l m : Lex} {ls rest mid : List Lex}

theorem Ready.kind (ready : Ready s (l :: ls)) : s.cursor.current.kind = l.kind :=
  congrArg Lex.kind (List.cons.inj ready.lexes).1

theorem Ready.value (ready : Ready s (l :: ls)) : s.cursor.current.value = l.value :=
  congrArg Lex.value (List.cons.inj ready.lexes).1

theorem Ready.broken (ready : Ready s (l :: ls)) : s.cursor.current.afterLineBreak = l.broken :=
  congrArg Lex.broken (List.cons.inj ready.lexes).1

theorem Ready.advance (ready : Ready s (l :: ls)) (more : ls ≠ []) : Ready (advance s).2 ls := by
  refine ⟨nextOrdered ready.ordered, ?_, fun k member => ready.arrows k (List.mem_cons_of_mem _ member),
    ready.free⟩
  have behind := (List.cons.inj ready.lexes).2
  show s.cursor.next.lexes = ls
  unfold Cursor.next
  split
  · rename_i upcoming
    rw [upcoming] at behind
    exact behind
  · rename_i upcoming
    rw [upcoming] at behind
    exact absurd behind.symm more

theorem Calm.advance (s : ParseState) : Calm s (advance s).2 := by
  refine ⟨?_, rfl, .refl _⟩
  show s.cursor.next.errors = _
  unfold Cursor.next
  split <;> rfl

theorem Ready.length (ready : Ready s ls) : s.cursor.upcoming.length + 1 = ls.length := by
  simpa [Cursor.lexes] using congrArg List.length ready.lexes

end

namespace Delivers
variable {α β σ : Type} {s s' : ParseState} {l m : Lex} {ls rest mid : List Lex}
  {P : Tree → α → Prop} {Q : Tree → β → Prop}

theorem pure {b : β} (ready : Ready s rest) (holds : Q s.tree b) :
    Delivers (Pure.pure b) s rest Q :=
  ⟨b, s, rfl, ready, .refl s, holds⟩

theorem bind {p : Parse α} {f : α → Parse β} (first : Delivers p s mid P)
    (next : ∀ a s', Ready s' mid → Calm s s' → P s'.tree a → Delivers (f a) s' rest Q) :
    Delivers (p >>= f) s rest Q := by
  obtain ⟨a, s', run, ready, calm, holds⟩ := first
  obtain ⟨b, s'', run', ready', calm', holds'⟩ := next a s' ready calm holds
  exact ⟨b, s'', by rw [bindAt, run]; exact run', ready', calm.trans calm', holds'⟩

/- Tokens were taken, and the place at hand is further on. -/
theorem bindFurther [Refs α] {r : Nat} {made : Progress} {p : Parse α} {f : α → Parse β}
    (ready : Ready s ls) (reads : Reads none r made p p) (fewer : mid.length < ls.length) (first : Delivers p s mid P)
    (next : ∀ a s', Ready s' mid → Calm s s' → P s'.tree a →
      s.cursor.current.start < s'.cursor.current.start → Delivers (f a) s' rest Q) :
    Delivers (p >>= f) s rest Q := by
  obtain ⟨a, s', run, ready', calm, holds⟩ := first
  have moved := (runPlace (reads.run ready.ordered) ready.ordered).2
  have long := ready.length
  have short := ready'.length
  rw [run] at moved
  have further := moved (show s'.cursor.upcoming.length < s.cursor.upcoming.length by omega)
  obtain ⟨b, s'', run', ready'', calm', holds'⟩ := next a s' ready' calm holds further
  exact ⟨b, s'', by rw [bindAt, run]; exact run', ready'', calm.trans calm', holds'⟩

theorem weaken {p : Parse β} {R : Tree → β → Prop} (reads : Delivers p s rest Q)
    (weaker : ∀ t b, s.tree.Grows t → Q t b → R t b) : Delivers p s rest R := by
  obtain ⟨b, s', run, ready, calm, holds⟩ := reads
  exact ⟨b, s', run, ready, calm, weaker _ _ calm.grows holds⟩

/- A state from which the same is done. -/
theorem after {p q : Parse β} (calm : Calm s s') (same : p s = q s')
    (next : Delivers q s' rest Q) : Delivers p s rest Q := by
  obtain ⟨b, s'', run, ready, calm', holds⟩ := next
  exact ⟨b, s'', same.trans run, ready, calm.trans calm', holds⟩

theorem place {f : Nat → Parse β} (next : Delivers (f s.cursor.current.start) s rest Q) :
    Delivers (Parse.here >>= f) s rest Q := next

theorem here {f : Nat → Parse β} (next : ∀ start, Delivers (f start) s rest Q) :
    Delivers (Parse.here >>= f) s rest Q := place (next _)

theorem prevStop {f : Nat → Parse β} (next : ∀ stop, Delivers (f stop) s rest Q) :
    Delivers (Parse.prevStop >>= f) s rest Q := next s.cursor.prevStop

theorem token {f : Token → Parse β} (ready : Ready s (l :: ls))
    (next : ∀ t : Token, t.lex = l → Delivers (f t) s rest Q) : Delivers (Parse.token >>= f) s rest Q :=
  next s.cursor.current (List.cons.inj ready.lexes).1

theorem kind {f : TokenKind → Parse β} {k : TokenKind} (ready : Ready s (l :: ls)) (same : l.kind = k)
    (next : Delivers (f k) s rest Q) : Delivers (Parse.kind >>= f) s rest Q := by
  show Delivers (f s.cursor.current.kind) s rest Q
  rwa [ready.kind, same]

theorem notAt {k : TokenKind} {f : Bool → Parse β} (ready : Ready s (l :: ls)) (other : l.kind ≠ k)
    (next : Delivers (f false) s rest Q) : Delivers (Parse.isAt k >>= f) s rest Q := by
  show Delivers (f (s.cursor.current.kind == k)) s rest Q
  rwa [ready.kind, beq_eq_false_iff_ne.mpr other]

theorem isThere {k : TokenKind} {f : Bool → Parse β} (ready : Ready s (l :: ls)) (same : l.kind = k)
    (next : Delivers (f true) s rest Q) : Delivers (Parse.isAt k >>= f) s rest Q := by
  show Delivers (f (s.cursor.current.kind == k)) s rest Q
  rwa [ready.kind, beq_iff_eq.mpr same]

theorem advance {f : Unit → Parse β} (ready : Ready s (l :: ls)) (more : ls ≠ [])
    (next : ∀ s', Ready s' ls → Calm s s' → Delivers (f ()) s' rest Q) :
    Delivers (Parse.advance >>= f) s rest Q :=
  bind (P := fun _ _ => True) ⟨(), _, rfl, ready.advance more, .advance s, trivial⟩
    fun _ s' ready calm _ => next s' ready calm

theorem expect {k : TokenKind} {f : Unit → Parse β} (ready : Ready s (l :: ls)) (more : ls ≠ [])
    (there : l.kind = k) (next : ∀ s', Ready s' ls → Calm s s' → Delivers (f ()) s' rest Q) :
    Delivers (Parse.expect k >>= f) s rest Q :=
  bind (P := fun _ _ => True)
    ⟨(), _, expectThere (ready.kind.trans there), ready.advance more, .advance s, trivial⟩
    fun _ s' ready calm _ => next s' ready calm

theorem accept {k : TokenKind} {f : Bool → Parse β} (ready : Ready s (l :: ls)) (more : ls ≠ [])
    (there : l.kind = k) (next : ∀ s', Ready s' ls → Calm s s' → Delivers (f true) s' rest Q) :
    Delivers (Parse.accept k >>= f) s rest Q := by
  have found : Parse.accept k s = (true, (Parse.advance s).2) := by
    unfold Parse.accept
    rw [bindAt, show Parse.isAt k s = (true, s) from
      Prod.ext (beq_iff_eq.mpr (ready.kind.trans there)) rfl]
    rfl
  exact bind (P := fun _ b => b = true) ⟨true, _, found, ready.advance more, .advance s, rfl⟩
    fun _ s' ready calm same => same ▸ next s' ready calm

theorem refuse {k : TokenKind} {f : Bool → Parse β} (ready : Ready s (l :: ls))
    (other : l.kind ≠ k) (next : Delivers (f false) s rest Q) :
    Delivers (Parse.accept k >>= f) s rest Q := by
  have found : Parse.accept k s = (false, s) := by
    unfold Parse.accept
    rw [bindAt, show Parse.isAt k s = (false, s) from
      Prod.ext (beq_eq_false_iff_ne.mpr (ready.kind.trans_ne other)) rfl]
    rfl
  rw [Delivers, bindAt, found]
  exact next

theorem afterLineBreak {f : Bool → Parse β} (ready : Ready s (l :: ls))
    (next : Delivers (f l.broken) s rest Q) : Delivers (Parse.afterLineBreak >>= f) s rest Q := by
  show Delivers (f s.cursor.current.afterLineBreak) s rest Q
  rwa [ready.broken]

theorem get {f : ParseState → Parse β} (next : Delivers (f s) s rest Q) :
    Delivers (MonadState.get >>= f) s rest Q := next

/-! ### Nodes -/

theorem addNode {n : Node} (ready : Ready s rest) :
    Delivers (Parse.addNode n) s rest fun t a => t.Carries a n.kind n.payload? := by
  obtain ⟨m, found, same⟩ := Tree.addNew s.tree n
  exact ⟨_, _, rfl, ⟨ready.ordered, ready.lexes, ready.arrows, ready.free⟩,
    ⟨rfl, rfl, Tree.growsAdd _ _⟩, _, m, rfl, found, same.kind, same.payload⟩

theorem finish {kind : NodeKind} {start : Nat} {p : Payload} (ready : Ready s rest) :
    Delivers (Parse.finish kind start p) s rest fun t a => t.Carries a kind (some p) :=
  prevStop fun _ => addNode ready

/-! ### Nesting and loops -/

/- Something read one level deeper. -/
theorem nest {p : Parse α} {f : α → Parse β} {otherwise : Parse β} (ready : Ready s ls)
    (room : s.depth < maxNesting)
    (inner : ∀ s₁, Ready s₁ ls → s₁.depth = s.depth + 1 → Delivers p s₁ mid P)
    (next : ∀ a s', Ready s' mid → Calm s s' → P s'.tree a → Delivers (f a) s' rest Q) :
    Delivers (do
      if ← enter then
        let a ← p
        leave
        f a
      else otherwise) s rest Q := by
  obtain ⟨a, s₂, run, ready₂, calm, holds⟩ := inner { s with depth := s.depth + 1 }
    ⟨ready.ordered, ready.lexes, ready.arrows, ready.free⟩ rfl
  have back : Calm s { s₂ with depth := s₂.depth - 1 } :=
    ⟨calm.errors, by rw [calm.depth]; rfl, calm.grows⟩
  refine after back ?_ (next a _ ⟨ready₂.ordered, ready₂.lexes, ready₂.arrows, ready₂.free⟩ back holds)
  rw [bindAt, enterRoom room, if_pos rfl, bindAt, run]
  rfl

theorem nested {otherwise body : Parse β} (ready : Ready s ls) (room : s.depth < maxNesting)
    (inner : ∀ s₁, Ready s₁ ls → s₁.depth = s.depth + 1 → Delivers body s₁ rest Q) :
    Delivers (Parse.nested otherwise body) s rest Q :=
  nest ready room inner fun _ _ ready _ holds => pure ready holds

theorem within {p : Parse β} (ready : Ready s ls) (inner : Delivers p s rest Q) :
    Delivers (withInForbidden false p) s rest Q := by
  obtain ⟨b, s', run, ready', calm, holds⟩ := inner
  have same : { s with inForbidden := false } = s := by rw [← ready.free]
  refine ⟨b, { s' with inForbidden := s.inForbidden }, ?_,
    ⟨ready'.ordered, ready'.lexes, ready'.arrows, ready.free⟩, ⟨calm.errors, calm.depth, calm.grows⟩,
    holds⟩
  show (let r := p { s with inForbidden := false }
    ((r.1, { r.2 with inForbidden := s.inForbidden }) : β × ParseState)) = _
  rw [same, run]

/- The last round. -/
theorem stops {step : σ → Parse (ForInStep σ)} {a : σ} {R : Tree → σ → Prop} (rounds : List Token)
    (last : Delivers (step a) s rest fun t r => ∃ b, r = .done b ∧ R t b) :
    Delivers (repeatOver step rounds a) s rest R := by
  cases rounds <;>
  · refine bind last fun r s' ready _ holds => ?_
    obtain ⟨b, rfl, holds⟩ := holds
    exact pure ready holds

/- One more round. -/
theorem goesOn {step : σ → Parse (ForInStep σ)} {a : σ} {R S : Tree → σ → Prop} {t : Token}
    {rounds : List Token} (first : Delivers (step a) s mid fun t r => ∃ b, r = .yield b ∧ S t b)
    (next : ∀ b s', Ready s' mid → Calm s s' → S s'.tree b →
      Delivers (repeatOver step rounds b) s' rest R) :
    Delivers (repeatOver step (t :: rounds) a) s rest R := by
  refine bind first fun r s' ready calm holds => ?_
  obtain ⟨b, rfl, holds⟩ := holds
  exact next b s' ready calm holds

theorem loop {step : σ → Parse (ForInStep σ)} {a : σ} {R : Tree → σ → Prop} (ready : Ready s ls)
    (rounds : ∀ rounds : List Token, rounds.length + 1 = ls.length →
      Delivers (repeatOver step rounds a) s rest R) : Delivers (Parse.loop step a) s rest R :=
  rounds s.cursor.upcoming ready.length

end Delivers

/-! ### Looking ahead -/

/- The answer is no where the text has no arrow. -/
def Denies (p : Parse Bool) : Prop :=
  ∀ s, s.cursor.Ordered → .punct .arrow ∉ s.cursor.kinds → (p s).1 = false

namespace Denies

theorem no : Denies (Pure.pure false) := fun _ _ _ => rfl

theorem arrow : Denies (isAt (.punct .arrow)) := by
  intro s _ absent
  refine beq_eq_false_iff_ne.mpr fun there => absent ?_
  rw [← there]
  exact List.mem_cons_self

theorem branch {c : Prop} [Decidable c] {p q : Parse Bool} (yes : Denies p) (no : Denies q) :
    Denies (if c then p else q) := by
  split
  · exact yes
  · exact no

theorem next {α : Type} [Refs α] {r : Nat} {made : Progress} {p : Parse α} {f : α → Parse Bool}
    (reads : Reads none r made p p) (rest : ∀ a, Denies (f a)) : Denies (p >>= f) := by
  intro s ordered absent
  have run := reads.run ordered
  exact rest (p s).1 (p s).2 (runOrdered run ordered) fun there =>
    absent ((runKinds run).subset there)

theorem taking {f : Unit → Parse Bool} (rest : Denies (f ())) : Denies (Parse.advance >>= f) :=
  fun s ordered absent => rest (Parse.advance s).2 (nextOrdered ordered) fun there =>
    absent ((nextKinds s.cursor).subset there)

theorem test {p q : Parse Bool} (no : Denies q) :
    Denies (isAt (.punct .arrow) >>= fun there => if there then p else q) := by
  intro s ordered absent
  rw [bindAt, show isAt (.punct .arrow) s = (false, s) from
    Prod.ext (arrow s ordered absent) rfl]
  exact no s ordered absent

theorem follows : Denies arrowFollows := by
  have tail : Denies (do
      unless ← skipParenthesized do return false
      let _ ← optionalType
      isAt (.punct .arrow)) :=
    .next readsSkipParenthesized fun _ => .branch (.next readsOptionalType fun _ => arrow) no
  have row : Denies (do
      if ← isAt (.punct .less) then
        unless ← skipTypeArguments do return false
      unless ← skipParenthesized do return false
      let _ ← optionalType
      isAt (.punct .arrow)) :=
    .next (seesIsAt _).reads fun _ => .branch
      (.next readsSkipTypeArguments fun _ => .branch tail no) tail
  refine .next seesKind.reads fun _ => ?_
  split
  · exact .taking arrow
  · exact row
  · exact row
  · exact no

theorem starts : Denies startsArrowFunction := by
  have inner : Denies (do
      if ← isContextual "async" then
        advance
        if ← afterLineBreak then return false
        if ← isAt (.punct .arrow) then return true
      arrowFollows) :=
    .next (seesContextual _).reads fun _ => .branch
      (.taking <| .next seesAfterLineBreak.reads fun _ => .branch no (.test follows))
      follows
  exact inner

end Denies

namespace Delivers
variable {β : Type} {s s' : ParseState} {l m : Lex} {ls rest : List Lex} {Q : Tree → β → Prop}

theorem noArrow {f : Bool → Parse β} (ready : Ready s ls)
    (next : ∀ s', Ready s' ls → Calm s s' → Delivers (f false) s' rest Q) :
    Delivers (startsArrowFunction >>= f) s rest Q := by
  have run := (readsStartsArrow (b := none)).run ready.ordered
  have absent : .punct .arrow ∉ s.cursor.kinds := by
    intro there
    obtain ⟨t, member, same⟩ := List.mem_map.mp there
    exact ready.arrows t.lex (ready.lexes ▸ List.mem_map_of_mem member) same
  have denied := Denies.starts s ready.ordered absent
  obtain ⟨depth, free⟩ := runRestores run
  exact bind (P := fun _ b => b = false)
    ⟨_, _, rfl, ⟨ready.ordered, ready.lexes, ready.arrows, free.trans ready.free⟩,
      ⟨rfl, depth, runGrows run⟩, denied⟩
    fun _ s' ready calm same => same ▸ next s' ready calm

theorem noAsync {f : Bool → Parse β} (ready : Ready s (l :: m :: ls))
    (plain : m.kind ≠ .word .functionWord) (next : Delivers (f false) s rest Q) :
    Delivers (startsAsyncFunction >>= f) s rest Q := by
  have other : ((Parse.advance s).2.cursor.current.kind == .word .functionWord) = false := by
    rw [(ready.advance (List.cons_ne_nil _ _)).kind]
    exact beq_eq_false_iff_ne.mpr plain
  have same : startsAsyncFunction s = (false, s) := by
    show (ite ((isContextual "async" s).1 = true) _ _ : Parse Bool) _ = _
    split
    · show ((((Parse.advance s).2.cursor.current.kind == .word .functionWord) && _, _) : Bool × ParseState) = _
      rw [other]
      rfl
    · rfl
  rw [Delivers, bindAt, same]
  exact next

end Delivers

end Parse
end CallGuard
