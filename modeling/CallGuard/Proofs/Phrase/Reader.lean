import CallGuard.Proofs.Parser.Reader
import CallGuard.Proofs.Phrase.Spelling

/-! How readers are put together, told by the parts that they read. A construct begins at a token and
goes on part by part; what is known of the parts counts only as long as nothing was reported. -/
namespace CallGuard.Phrase
open Parse

/- Reading took the tokens of a row and made the nodes in it. -/
structure Took (s : ParseState) (row : List Part) (s' : ParseState) : Prop where
  began : s.cursor.Ordered
  ordered : s'.cursor.Ordered
  grows : s.tree.Grows s'.tree
  errors : s.cursor.errors <:+ s'.cursor.errors
  spelt : Spelt s'.tree (s'.cursor.errors = []) row s.cursor.ahead s'.cursor.ahead

section
variable {s s' s'' : ParseState} {row more : List Part}

theorem Took.rest (ordered : s.cursor.Ordered) : Took s [] s :=
  ⟨ordered, ordered, .refl _, List.suffix_refl _, .nil _⟩

theorem Took.clean (took : Took s row s') (clean : s'.cursor.errors = []) : s.cursor.errors = [] :=
  List.suffix_nil.mp (clean ▸ took.errors)

theorem Took.chain (before : Took s row s') (next : Took s' more s'') : Took s (row ++ more) s'' :=
  ⟨before.began, next.ordered, before.grows.trans next.grows, before.errors.trans next.errors,
    (before.spelt.later next.grows next.clean).append next.spelt⟩

/- Either nothing was taken, or a token further on is at hand. -/
theorem Took.place (took : Took s row s') : s'.cursor.ahead = s.cursor.ahead ∨
    s.cursor.current.start < s'.cursor.current.start := by
  obtain ⟨taken, split⟩ := took.spelt.taken
  cases taken with
  | nil => exact .inl split
  | cons t taken =>
    obtain ⟨rfl, rest⟩ := List.cons.inj split
    refine .inr (List.rel_of_pairwise_cons (Token.rowSorted took.began.row) (rest ▸ ?_))
    exact List.mem_append_right _ List.mem_cons_self

theorem Took.moved (took : Took s row s') (clean : s'.cursor.errors = [])
    (solid : ∃ x ∈ row, x.solid = true) : s.cursor.current.start < s'.cursor.current.start :=
  took.place.resolve_left fun same =>
    Nat.ne_of_lt (took.spelt.moves clean solid) (congrArg List.length same)

/- Tokens that were passed over. -/
theorem Took.passed {strict : Bool} {ts : List Token} (took : Took s row s')
    (trace : Trace strict s' ts [] s'') : Took s (row ++ ts.map .skipped) s'' := by
  obtain ⟨run, ahead⟩ := traceRun trace took.ordered
  refine took.chain ⟨took.ordered, traceOrdered trace took.ordered, runGrows run, traceErrors trace, ?_⟩
  rw [ahead]
  exact .passed _ _ _ _

theorem Took.quiet {strict : Bool} (took : Took s row s') (trace : Trace strict s' [] [] s'') :
    Took s row s'' := by
  have after := took.passed trace
  rwa [List.map_nil, List.append_nil] at after

theorem Took.take (took : Took s row s') (more : s'.cursor.current.isEnd = false) :
    Took s (row ++ [.token s'.cursor.current]) (advance s').2 := by
  have trace : Trace true s' [s'.cursor.current] [] (advance s').2 := .take more
  have ahead := (traceRun trace took.ordered).2
  refine took.chain ⟨took.ordered, traceOrdered trace took.ordered, .refl _, traceErrors trace, ?_⟩
  rw [ahead]
  exact .token (.nil _)

/- A node that is added without being held. -/
theorem Took.orphan (took : Took s row s') (n : Node) :
    Took s row { s' with tree := s'.tree.add n } :=
  ⟨took.began, took.ordered, took.grows.trans (Tree.growsAdd _ _), took.errors,
    took.spelt.later (Tree.growsAdd _ _) id⟩

theorem Took.add {c : Category} {n : Node} (took : Took s row s')
    (place : n.start = s.cursor.current.start) (fits : Fits (s'.cursor.errors = []) c n row) :
    Took s [.node c s'.tree.size] { s' with tree := s'.tree.add n } := by
  obtain ⟨m, found, same⟩ := Tree.addNew s'.tree n
  have after := took.orphan n
  exact ⟨after.began, after.ordered, after.grows, after.errors,
    .node found (same.start.trans place) (fits.later same id) after.spelt (.nil _)⟩

end

/- A construct that began at `start` is under way: it took the parts in `row`, and holds some of the
nodes among them. -/
structure Underway (start : Nat) (held : List NodeId) (row : List Part) (facts : Prop)
    (s₀ s : ParseState) : Prop where
  place : s₀.cursor.current.start = start
  took : Took s₀ row s
  held : held.Sublist (nodes row)
  facts : s.cursor.errors = [] → facts

/- What a part of a construct leaves behind. -/
def Leaves {α : Type} [Refs α] (Q : α → List Part → Prop) (s₀ : ParseState) (answer : α × ParseState) :
    Prop :=
  ∃ row, Took s₀ row answer.2 ∧ (refs answer.1).Sublist (nodes row) ∧
    (answer.2.cursor.errors = [] → Q answer.1 row)

/- `known` is the token at hand where it matters. -/
def Going {α : Type} [Refs α] (start : Nat) (known : Option Token) (held : List NodeId)
    (row : List Part) (facts : Prop) (p : Parse α) (Q : α → List Part → Prop) : Prop :=
  ∀ s₀ s, Underway start held row facts s₀ s → (∀ t ∈ known, s.cursor.current = t) →
    Leaves Q s₀ (p s)

/- A construct of its own. -/
def FormsAt {α : Type} [Refs α] (known : Option Token) (p : Parse α) (Q : α → List Part → Prop) :
    Prop :=
  ∀ s, s.cursor.Ordered → (∀ t ∈ known, s.cursor.current = t) → Leaves Q s (p s)

abbrev Forms {α : Type} [Refs α] (p : Parse α) (Q : α → List Part → Prop) : Prop := FormsAt none p Q

/- What holds behind one round of a loop: `I` if it goes on, and `D` if it is done. -/
def Round {σ : Type} (I D : σ → List Part → Prop) : ForInStep σ → List Part → Prop
  | .yield x => I x
  | .done x => D x

section
variable {α β σ : Type} [Refs α] [Refs β] [Refs σ] {start : Nat} {known : Option Token} {t : Token}
  {held used : List NodeId} {row : List Part} {facts : Prop} {p q : Parse α} {f g : α → Parse β}
  {A B : α → List Part → Prop} {Q R : β → List Part → Prop}

theorem Underway.begin {s : ParseState} (ordered : s.cursor.Ordered) :
    Underway s.cursor.current.start [] [] True s s :=
  ⟨rfl, .rest ordered, .refl _, fun _ => trivial⟩

theorem Underway.next {s₀ s s' : ParseState} {ids : List NodeId} {more : List Part} {fact : Prop}
    (now : Underway start held row facts s₀ s) (took : Took s more s')
    (named : ids.Sublist (nodes more)) (learnt : s'.cursor.errors = [] → fact) :
    Underway start (held ++ ids) (row ++ more) (facts ∧ fact) s₀ s' :=
  ⟨now.place, now.took.chain took, by rw [nodesAppend]; exact now.held.append named,
    fun clean => ⟨now.facts (took.clean clean), learnt clean⟩⟩

theorem Leaves.weaken {s₀ : ParseState} {answer : α × ParseState} (leaves : Leaves A s₀ answer)
    (weaker : ∀ x row, A x row → B x row) : Leaves B s₀ answer := by
  obtain ⟨row, took, named, learnt⟩ := leaves
  exact ⟨row, took, named, fun clean => weaker _ _ (learnt clean)⟩

/-! ### Constructs -/

theorem FormsAt.plain (h : Going t.start (some t) [] [] True p A) : FormsAt (some t) p A := by
  intro s ordered there
  cases there t rfl
  exact h s s (.begin ordered) there

theorem FormsAt.weaken (h : FormsAt known p A) (weaker : ∀ x row, A x row → B x row) :
    FormsAt known p B :=
  fun s ordered there => (h s ordered there).weaken weaker

theorem FormsAt.know (h : Forms p A) : FormsAt known p A :=
  fun s ordered _ => h s ordered (unknown s)

theorem Forms.at (h : ∀ t, FormsAt (some t) p A) : Forms p A := by
  intro s ordered _
  exact h s.cursor.current s ordered (by rintro t ⟨⟩; rfl)

theorem Forms.plain (h : ∀ t, Going t.start (some t) [] [] True p A) : Forms p A :=
  .at fun t => .plain (h t)

/- A construct that keeps the place where it begins. -/
theorem FormsAt.begins {f : Nat → Parse α}
    (h : Going t.start (some t) [] [] True (f t.start) A) : FormsAt (some t) (here >>= f) A := by
  refine .plain fun s₀ s now there => ?_
  obtain rfl := there t rfl
  exact h s₀ s now there

theorem Forms.begins {f : Nat → Parse α}
    (h : ∀ t, Going t.start (some t) [] [] True (f t.start) A) : Forms (here >>= f) A :=
  .at fun t => .begins (h t)

theorem FormsAt.map {f : α → β} (same : ∀ x, refs (f x) = refs x) (h : FormsAt known p A)
    (weaker : ∀ x row, A x row → Q (f x) row) : FormsAt known (f <$> p) Q := by
  intro s ordered there
  obtain ⟨row, took, named, learnt⟩ := h s ordered there
  exact ⟨row, took, by rw [← same] at named; exact named, fun clean => weaker _ _ (learnt clean)⟩

/-! ### Parts -/

namespace Going

theorem anywhere (h : Going start none held row facts p A) : Going start known held row facts p A :=
  fun s₀ s now _ => h s₀ s now (unknown s)

theorem know (h : ∀ t, Going start (some t) held row facts p A) :
    Going start none held row facts p A := by
  intro s₀ s now _
  refine h s.cursor.current s₀ s now ?_
  rintro t ⟨⟩
  rfl

theorem learn {more : Prop} (h : Going start known held row more p A) (learnt : facts → more) :
    Going start known held row facts p A :=
  fun s₀ s now there => h s₀ s ⟨now.place, now.took, now.held, fun clean => learnt (now.facts clean)⟩ there

/- What else is held is not used any more. -/
theorem drop (h : Going start known used row facts p A) (fewer : used.Sublist held) :
    Going start known held row facts p A :=
  fun s₀ s now there => h s₀ s ⟨now.place, now.took, fewer.trans now.held, now.facts⟩ there

theorem see {γ : Type} {p : Parse γ} {g : Token → γ} {f : γ → Parse β} (sees : Sees p g)
    (rest : Going start (some t) held row facts (f (g t)) Q) :
    Going start (some t) held row facts (p >>= f) Q := by
  intro s₀ s now there
  obtain rfl := there t rfl
  rw [bindAt, sees s]
  exact rest s₀ s now there

theorem peek {γ : Type} {G : γ → Prop} {p : Parse γ} {f : γ → Parse β} (h : Peeks none t G p)
    (rest : ∀ x, G x → Going start (some t) held row facts (f x) Q) :
    Going start (some t) held row facts (p >>= f) Q := by
  intro s₀ s now there
  obtain ⟨⟨_, course⟩, same, result⟩ := h s (there t rfl) now.took.ordered (by rintro c ⟨⟩)
  have took := now.took.quiet (courseTrace course)
  refine rest (p s).1 result s₀ (p s).2 ⟨now.place, took, now.held, fun clean => ?_⟩ ?_
  · rw [same] at clean
    exact now.facts clean
  · rw [same]
    exact there

theorem state {f : ParseState → Parse β} (rest : ∀ s, Going start known held row facts (f s) Q) :
    Going start known held row facts (get >>= f) Q :=
  fun s₀ s now there => rest s s₀ s now there

theorem pure {x : α} (part : (refs x).Sublist held) (made : facts → A x row) :
    Going start known held row facts (Pure.pure x : Parse α) A :=
  fun _ _ now _ => ⟨row, now.took, part.trans now.held, fun clean => made (now.facts clean)⟩

theorem given {γ : Type} {x : γ} {f : γ → Parse β} (rest : Going start known held row facts (f x) Q) :
    Going start known held row facts (Pure.pure x >>= f) Q := rest

theorem kept {x : α} (made : facts → A x row) :
    Going start known (refs x) row facts (Pure.pure x : Parse α) A := pure (.refl _) made

theorem done [Quiet α] {x : α} (made : facts → A x row) :
    Going start known held row facts (Pure.pure x : Parse α) A :=
  pure (by rw [Quiet.nothing x]; exact List.nil_sublist _) made

theorem nextAt (first : FormsAt known p A)
    (rest : ∀ x more, Going start none (held ++ refs x) (row ++ more) (facts ∧ A x more) (f x) Q) :
    Going start known held row facts (p >>= f) Q := by
  intro s₀ s now there
  obtain ⟨more, took, named, learnt⟩ := first s now.took.ordered there
  exact rest (p s).1 more s₀ (p s).2 (now.next took named learnt) (unknown _)

theorem next (first : Forms p A)
    (rest : ∀ x more, Going start none (held ++ refs x) (row ++ more) (facts ∧ A x more) (f x) Q) :
    Going start known held row facts (p >>= f) Q := nextAt (.know first) rest

/- The first part of a construct. -/
theorem firstAt (h : FormsAt known p A)
    (rest : ∀ x more, Going start none (refs x) more (A x more) (f x) Q) :
    Going start known [] [] facts (p >>= f) Q :=
  nextAt h fun x more => learn (rest x more) And.right

theorem first (h : Forms p A)
    (rest : ∀ x more, Going start none (refs x) more (A x more) (f x) Q) :
    Going start known [] [] facts (p >>= f) Q := firstAt (.know h) rest

/- A part that names no nodes. -/
theorem pass [Quiet α] (first : Forms p A)
    (rest : ∀ x more, Going start none held (row ++ more) (facts ∧ A x more) (f x) Q) :
    Going start known held row facts (p >>= f) Q := by
  refine next first fun x more => ?_
  rw [Quiet.nothing x, List.append_nil]
  exact rest x more

/- A part either takes tokens or leaves the token at hand. -/
theorem either (first : Forms p A)
    (moved : ∀ x more u, t.start < u.start →
      Going start (some u) (held ++ refs x) (row ++ more) (facts ∧ A x more) (f x) Q)
    (still : ∀ x more, Going start (some t) (held ++ refs x) (row ++ more) (facts ∧ A x more) (f x) Q) :
    Going start (some t) held row facts (p >>= f) Q := by
  intro s₀ s now there
  obtain rfl := there t rfl
  obtain ⟨more, took, named, learnt⟩ := first s now.took.ordered (unknown s)
  have after := now.next took named learnt
  rcases took.place with same | further
  · exact still _ _ s₀ _ after (by rintro t ⟨⟩; exact (List.cons.inj same).1)
  · exact moved _ _ _ further s₀ _ after (by rintro t ⟨⟩; rfl)

/- A step that does nothing at the token at hand. -/
theorem settled {γ : Type} {p : Parse γ} {x : γ} {f : γ → Parse β}
    (still : ∀ s, s.cursor.current = t → p s = (x, s))
    (rest : Going start (some t) held row facts (f x) Q) :
    Going start (some t) held row facts (p >>= f) Q := by
  intro s₀ s now there
  rw [bindAt, still s (there t rfl)]
  exact rest s₀ s now there

/- A step that uses all that is held. -/
theorem last (h : Going start known held row facts p A)
    (rest : ∀ x row, Going start none (refs x) row (A x row) (f x) Q) :
    Going start known held row facts (p >>= f) Q := by
  intro s₀ s now there
  obtain ⟨row', took, named, learnt⟩ := h s₀ s now there
  exact rest (p s).1 row' s₀ (p s).2 ⟨now.place, took, named, learnt⟩ (unknown _)

/- The last part of a construct. -/
theorem endsAt (first : FormsAt known p A) (made : ∀ x more, facts → A x more → B x (row ++ more)) :
    Going start known held row facts p B := by
  intro s₀ s now there
  obtain ⟨more, took, named, learnt⟩ := first s now.took.ordered there
  refine ⟨row ++ more, now.took.chain took, ?_, fun clean =>
    made _ _ (now.facts (took.clean clean)) (learnt clean)⟩
  rw [nodesAppend]
  exact named.trans (List.sublist_append_right _ _)

theorem ends (first : Forms p A) (made : ∀ x more, facts → A x more → B x (row ++ more)) :
    Going start known held row facts p B := endsAt (.know first) made

/- A construct that is one part. -/
theorem whole (h : FormsAt known p A) : Going start known [] [] facts p A :=
  endsAt h fun _ _ _ own => own

theorem weaken (h : Going start known held row facts p A) (weaker : ∀ x row, A x row → B x row) :
    Going start known held row facts p B :=
  fun s₀ s now there => (h s₀ s now there).weaken weaker

theorem branch {c : Prop} [Decidable c] (yes : c → Going start known held row facts p A)
    (no : ¬ c → Going start known held row facts q A) :
    Going start known held row facts (if c then p else q) A := by
  split
  · exact yes ‹c›
  · exact no ‹¬ c›

theorem advance {f : Unit → Parse β} (more : t.isEnd = false)
    (rest : Going start none held (row ++ [.token t]) facts (f ()) Q) :
    Going start (some t) held row facts (Parse.advance >>= f) Q := by
  intro s₀ s now there
  obtain rfl := there t rfl
  have took := now.took.take more
  refine rest s₀ _ ⟨now.place, took, ?_, fun clean => ?_⟩ (unknown _)
  · rw [nodesAppend]
    exact now.held.trans (List.sublist_append_left _ _)
  · exact now.facts (traceClean (.take more : Trace true s _ [] _) clean)

/- A token of a type is taken. -/
theorem skip {f : Unit → Parse β} (more : t.isEnd = false)
    (rest : Going start none held (row ++ [.skipped t]) facts (f ()) Q) :
    Going start (some t) held row facts (Parse.advance >>= f) Q := by
  intro s₀ s now there
  obtain rfl := there t rfl
  have trace : Trace true s [s.cursor.current] [] (Parse.advance s).2 := .take more
  refine rest s₀ _ ⟨now.place, now.took.passed trace, ?_, fun clean => ?_⟩ (unknown _)
  · rw [nodesAppend]
    exact now.held.trans (List.sublist_append_left _ _)
  · exact now.facts (traceClean trace clean)

/- Behind a fault nothing has to be known of the parts. -/
theorem report {f : Unit → Parse β} {fault : SyntaxFault}
    (rest : Going start known held row False (f ()) Q) :
    Going start known held row facts (reportHere fault >>= f) Q := by
  intro s₀ s now there
  have fails := reportFails now.took.ordered fault
  have trace : Trace true s [] [] (reportHere fault s).2 := .report s fault
  refine rest s₀ _ ⟨now.place, now.took.quiet trace, now.held, fun clean => fails clean⟩ ?_
  intro t member
  exact ((List.cons.inj (reportAhead s fault)).1).trans (there t member)

/- A token that is not at hand is reported. -/
theorem lacks {k : TokenKind} {f : Unit → Parse β} (other : t.kind ≠ k)
    (rest : Going start (some t) held row False (f ()) Q) :
    Going start (some t) held row facts (expect k >>= f) Q := by
  intro s₀ s now there
  rw [bindAt, expectElse (there t rfl ▸ other)]
  exact report rest s₀ s now there

theorem accept {k : TokenKind} [k.Proper]
    (yes : ∀ t, t.kind = k → Going start none held (row ++ [.token t]) facts p A)
    (no : (∀ t ∈ known, t.kind ≠ k) → Going start known held row facts q A) :
    Going start known held row facts (Parse.accept k >>= fun there => if there then p else q) A := by
  intro s₀ s now here
  rw [bindAt]
  by_cases there : s.cursor.current.kind = k
  · rw [acceptThere there]
    exact advance (t := s.cursor.current) (f := fun _ => p) (moreThere there) (yes _ there)
      s₀ s now (by rintro t ⟨⟩; rfl)
  · rw [acceptElse there]
    exact no (fun t member => here t member ▸ there) s₀ s now here

/- A construct with a part in it cannot end where it began. -/
theorem stuck (same : t.start = start) (solid : facts → ∃ x ∈ row, x.solid = true)
    (rest : Going start (some t) held row False p A) : Going start (some t) held row facts p A := by
  intro s₀ s now there
  refine rest s₀ s ⟨now.place, now.took, now.held, fun clean => ?_⟩ there
  have still : s₀.cursor.current.start = s.cursor.current.start :=
    now.place.trans (same.symm.trans (there t rfl ▸ rfl))
  exact Nat.lt_irrefl _ (still ▸ now.took.moved clean (solid (now.facts clean)))

theorem enter {yes no : Parse α} (room : Going start known held row facts yes A)
    (full : Going start known held row facts (reportHere .nestedTooDeeply >>= fun _ => no) A) :
    Going start known held row facts (do if ← Parse.enter then yes else no) A := by
  intro s₀ s now there
  rw [bindAt]
  by_cases fits : s.depth < maxNesting
  · rw [enterRoom fits]
    exact room s₀ { s with depth := s.depth + 1 } ⟨now.place, ⟨now.took.began, now.took.ordered, now.took.grows,
      now.took.errors, now.took.spelt⟩, now.held, now.facts⟩ there
  · rw [enterFull (Nat.not_lt.mp fits)]
    exact full s₀ s now there

theorem leave {f : Unit → Parse β} (rest : Going start known held row facts (f ()) Q) :
    Going start known held row facts (Parse.leave >>= f) Q :=
  fun s₀ s now there => rest s₀ { s with depth := s.depth - 1 } ⟨now.place, ⟨now.took.began, now.took.ordered,
    now.took.grows, now.took.errors, now.took.spelt⟩, now.held, now.facts⟩ there

theorem repeated {step : σ → Parse (ForInStep σ)} {I D : σ → List Part → Prop}
    (h : ∀ x row, Going start none (refs x) row (I x row) (step x) (Round I D))
    (stops : ∀ x row, I x row → D x row) (rounds : List Token) (x : σ) (row : List Part) :
    Going start none (refs x) row (I x row) (repeatOver step rounds x) D := by
  induction rounds generalizing x row with
  | nil =>
    refine last (h x row) fun next row' => ?_
    cases next with
    | done y => exact kept id
    | yield y => exact kept (stops y row')
  | cons t rest ih =>
    refine last (h x row) fun next row' => ?_
    cases next with
    | done y => exact kept id
    | yield y => exact ih y row'

theorem loop {step : σ → Parse (ForInStep σ)} {I D : σ → List Part → Prop} {x : σ}
    (h : ∀ x row, Going start none (refs x) row (I x row) (step x) (Round I D))
    (stops : ∀ x row, I x row → D x row) (begun : facts → I x row) :
    Going start known (refs x) row facts (Parse.loop step x) D :=
  fun s₀ s now _ => repeated h stops s.cursor.upcoming x row s₀ s
    ⟨now.place, now.took, now.held, fun clean => begun (now.facts clean)⟩ (unknown s)

end Going

/- The items of a row. -/
theorem FormsAt.collect {step : List Slot → Parse (ForInStep (List Slot))}
    {I D : List Slot → List Part → Prop}
    (h : ∀ start x row, Going start none (refs x) row (I x row) (step x) (Round I D))
    (stops : ∀ x row, I x row → D x row) (begun : I [] []) : Forms (Parse.loop step []) D :=
  .plain fun t => Going.loop (x := []) (h t.start) stops fun _ => begun

/- Going round without holding nodes. -/
theorem Forms.still [Quiet σ] {step : σ → Parse (ForInStep σ)} {I D : σ → List Part → Prop} {x : σ}
    (h : ∀ start x row, Going start none [] row (I x row) (step x) (Round I D))
    (stops : ∀ x row, I x row → D x row) (begun : I x []) : Forms (Parse.loop step x) D := by
  refine .plain fun t => ?_
  have held : Going t.start (some t) (refs x) [] True (Parse.loop step x) D :=
    .loop (fun y row => by rw [Quiet.nothing y]; exact h _ y row) stops fun _ => begun
  rwa [Quiet.nothing x] at held

/-! ### Nodes -/

/- The answer is a node of the category. -/
inductive IsNode (c : Category) : Slot → List Part → Prop where
  | mk (i) : IsNode c (some i) [.node c i]

theorem Going.add {c : Category} {n : Nat → Node} {A : Slot → List Part → Prop}
    (place : ∀ x, (n x).start = start) (kids : ∀ x, (n x).kids.Sublist held)
    (own : ∀ x, (n x).kind.isSuspension = true → ∃ t rest, row = .token t :: rest)
    (made : ∀ x, facts → Made c (n x).kind (n x).payload? row)
    (is : ∀ i, A (some i) [.node c i]) :
    Going start known held row facts (prevStop >>= fun x => addNode (n x)) A := by
  intro s₀ s now _
  refine ⟨[.node c s.tree.size], now.took.add ((place _).trans now.place.symm)
    ⟨(kids _).trans now.held, own _, fun clean => made _ (now.facts clean)⟩, ?_, fun _ => is _⟩
  exact .refl _

theorem Going.finish (c : Category) {kind : NodeKind} {payload : Payload}
    (kids : (payload.childrenAs kind).Sublist held)
    (made : facts → Made c kind (some payload) row)
    (own : kind.isSuspension = true → ∃ t rest, row = .token t :: rest) :
    Going start known held row facts (Parse.finish kind start payload) (IsNode c) :=
  .add (fun _ => rfl) (fun _ => kids) (fun _ => own) (fun _ => made) fun i => .mk i

/- Behind a fault any node will do. -/
theorem Going.missing {A : Slot → List Part → Prop} :
    Going start known held row False missing A := by
  intro s₀ s now _
  let pos := s.cursor.current.start
  let n := { Node.holding (.token .identifier) pos pos (.identifier "") with flags := .missing }
  have added : Took s [.node .expression s.tree.size] { s with tree := s.tree.add n } :=
    (Took.rest now.took.ordered).add rfl ⟨List.nil_sublist _, nofun, fun clean => (now.facts clean).elim⟩
  refine ⟨row ++ [.node .expression s.tree.size], now.took.chain added, ?_,
    fun clean => (now.facts clean).elim⟩
  rw [nodesAppend]
  exact List.sublist_append_right _ _

theorem Going.absent {A : Slot → List Part → Prop} :
    Going start known held row False (Pure.pure none : Parse Slot) A :=
  .pure (List.nil_sublist _) False.elim

/- An item that is left out. -/
theorem Going.hole {f : Slot → Parse β}
    (rest : ∀ x more, Going start (some t) (held ++ refs x) (row ++ more)
      (facts ∧ IsNode .hole x more) (f x) Q) :
    Going start (some t) held row facts
      (addNode (.bare .omittedExpression t.start t.start) >>= f) Q := by
  intro s₀ s now there
  obtain rfl := there t rfl
  let pos := s.cursor.current.start
  have added : Took s [.node .hole s.tree.size]
      { s with tree := s.tree.add (.bare .omittedExpression pos pos) } :=
    (Took.rest now.took.ordered).add rfl ⟨List.nil_sublist _, nofun, fun _ => .hole⟩
  exact rest (some s.tree.size) _ s₀ _ (now.next added (.refl _) fun _ => .mk _) (by rintro t ⟨⟩; rfl)

theorem FormsAt.token {c : Category} {n : Node} (more : t.isEnd = false) (kids : n.kids = [])
    (plain : n.kind.isSuspension = false) (begins : n.start = t.start)
    (made : Made c n.kind n.payload? [.token t]) :
    FormsAt (some t) (Parse.advance >>= fun _ => addNode n) (IsNode c) := by
  refine .plain (.advance more fun s₀ s now _ => ?_)
  refine ⟨[.node c s.tree.size], now.took.add (begins.trans now.place.symm)
    ⟨by rw [kids]; exact List.nil_sublist _, fun own => ?_, fun _ => made⟩, .refl _, fun _ => .mk _⟩
  rw [plain] at own
  cases own

/-! ### Looking and nesting -/

/- Looking at the token at hand reads nothing. -/
theorem formsSeen [Quiet α] {g : Token → α} (sees : Sees p g) : Forms p fun _ row => row = [] := by
  intro s ordered _
  rw [sees s]
  exact ⟨[], .rest ordered, by rw [Quiet.nothing]; exact .refl _, fun _ => rfl⟩

theorem Forms.nested (h : Forms p A)
    (full : ∀ start known, Going start known [] [] True (reportHere .nestedTooDeeply >>= fun _ => q) A) :
    Forms (nested q p) A :=
  .plain fun _ => .enter (.last (.whole (.know h)) fun _ _ => .leave (.kept id)) (full _ _)

/-! ### Tokens -/

inductive IsToken (k : TokenKind) : Unit → List Part → Prop where
  | mk {t : Token} (kind : t.kind = k) : IsToken k () [.token t]

theorem formsExpect (k : TokenKind) [k.Proper] : Forms (expect k) (IsToken k) :=
  .plain fun _ => .accept (fun _ there => .done fun _ => .mk there) fun _ =>
    .report (.done False.elim)

theorem formsAccept (k : TokenKind) [k.Proper] : Forms (accept k) (Maybe k) := by
  have plain : accept k = (accept k >>= fun there => if there then pure true else pure false) := by
    funext s
    rw [bindAt]
    cases there : (accept k s).1 <;> exact Prod.ext there rfl
  rw [plain]
  exact .plain fun _ => .accept (fun _ there => .done fun _ => .there there) fun _ =>
    .done fun _ => .absent

theorem formsEndStatement :
    Forms endStatement fun _ row => ∃ ended, Maybe (.punct .semicolon) ended row :=
  .plain fun _ => .accept (fun _ there => .done fun _ => ⟨true, .there there⟩)
    fun _ => .see seesCanEnd (.branch (fun _ => .done fun _ => ⟨false, .absent⟩) fun _ =>
      .ends (formsExpect _) fun _ _ _ own => by cases own with | mk kind => exact ⟨true, .there kind⟩)

theorem formsPrevStop : Forms prevStop fun _ row => row = [] :=
  fun _ ordered _ => ⟨[], .rest ordered, List.nil_sublist _, fun _ => rfl⟩

theorem formsHere : Forms here fun _ row => row = [] := formsSeen seesHere

theorem FormsAt.inForbidden (forbidden : Bool) (h : FormsAt known p A) :
    FormsAt known (withInForbidden forbidden p) A := by
  intro s ordered there
  obtain ⟨row, took, named, learnt⟩ := h { s with inForbidden := forbidden } ordered there
  exact ⟨row, ⟨took.began, took.ordered, took.grows, took.errors, took.spelt⟩, named, learnt⟩

theorem formsAddFlags (s : Slot) (flags : NodeFlags) : Forms (addFlags s flags) fun _ row => row = [] := by
  intro st ordered _
  cases s with
  | none => exact ⟨[], .rest ordered, List.nil_sublist _, fun _ => rfl⟩
  | some i => exact ⟨[], ⟨ordered, ordered, Tree.growsFlags _ _ _, List.suffix_refl _, .nil _⟩,
      List.nil_sublist _, fun _ => rfl⟩

/- Tokens of types that are passed over. -/
theorem Forms.dropped {r : Nat} {a : Progress} [Quiet α] (h : Parse.Reads none r a p p) :
    Forms p fun _ row => Dropped row := by
  intro s ordered _
  obtain ⟨ts, trace, _⟩ := (h s ordered (by rintro c ⟨⟩)).2.trace
  rw [Quiet.nothing] at trace
  have took := (Took.rest ordered).passed trace
  rw [List.nil_append] at took
  exact ⟨_, took, by rw [Quiet.nothing]; exact List.nil_sublist _, fun _ => ⟨ts, rfl⟩⟩

theorem Going.items {items : List Slot} (listStart : Nat) {D : NodeList → List Part → Prop}
    (made : ∀ l : NodeList, l.items.reverse = items → facts → D l row) :
    Going start known (refs items) row facts (listFrom listStart items.reverse) D := by
  refine .pass formsPrevStop fun x more => .pure (.refl _) fun ⟨learnt, empty⟩ => ?_
  rw [empty, List.append_nil]
  exact made _ (List.reverse_reverse items) learnt

end
end CallGuard.Phrase
