import CallGuard.Proofs.Fix.Conditions

/-! What branches and earlier statements tell is told in the new tree as in the old one. -/
namespace CallGuard

namespace Tree
variable {t t' : Tree} {v : Move} {i j : NodeId} {p : Payload} {s : Slot}

/-! ### Ends of statements -/

theorem openEnd (forest : t.Forest) (held : t.payloadAt? i = some p)
    (other : p.form ∉ [Form.exit, .jump])
    (block : ∀ l last, p = .block l → l.items.getLast? = some last → ¬ t.Ends last)
    (branch : ∀ b, p = .branch b → ¬ t.Ends b.elseBranch) : ¬ t.Ends (some i) := by
  intro ends
  cases ends with
  | @jump _ k kind leaves =>
    obtain ⟨k', found, form⟩ := heldKind forest held
    cases kind.symm.trans found
    cases k <;> cases leaves <;> rw [← Option.some.inj form] at other <;> simp at other
  | block held' final rest => exact block _ _ (Option.some.inj (held.symm.trans held')) final rest
  | branch held' _ no => exact branch _ (Option.some.inj (held.symm.trans held')) no

/- A node goes on unless its kind leaves, or lets it be a block or a branch. -/
theorem kindOpen (forest : t.Forest) (still : ∀ k, t.kind? i = some k → k.isJump = false ∧
    k.form? ≠ some .block ∧ k.form? ≠ some .branch) :
    ¬ t.Ends (some i) ∧ ∀ b, t.payloadAt? i ≠ some (.branch b) := by
  have branch (b : Branch) : t.payloadAt? i ≠ some (.branch b) := by
    intro held
    obtain ⟨k, found, form⟩ := heldKind forest held
    exact (still k found).2.2 form
  refine ⟨fun ends => ?_, branch⟩
  cases ends with
  | jump kind leaves =>
    rw [(still _ kind).1] at leaves
    cases leaves
  | block held _ _ =>
    obtain ⟨k, found, form⟩ := heldKind forest held
    exact (still k found).2.1 form
  | branch held _ _ => exact branch _ held

theorem coveredOpen (forest : t.Forest) (covered : t.kindIs NodeKind.isCovered i = true) :
    ¬ t.Ends (some i) ∧ ∀ b, t.payloadAt? i ≠ some (.branch b) := by
  obtain ⟨k, found, special⟩ := kindIsHeld.mp covered
  refine kindOpen forest fun k' found' => ?_
  cases found.symm.trans found'
  cases k <;> cases special <;> exact ⟨rfl, nofun, nofun⟩

theorem freeOpen (forest : t.Forest) (free : t.kindIs NodeKind.isStatement i = false) :
    ¬ t.Ends (some i) ∧ ∀ b, t.payloadAt? i ≠ some (.branch b) := by
  refine kindOpen forest fun k found => ?_
  rw [kindIs, found] at free
  refine ⟨?_, fun block => ?_, fun branch => ?_⟩
  · cases k <;> first | rfl | cases free
  · cases blockKind block
    cases free
  · cases branchKind branch
    cases free

/- `if (test) { child }` is left only where the child is, and has no other branch. -/
theorem chooseOpen {test : Slot} {choice : NodeId} (forest : t.Forest)
    (chooses : t.Chooses test i choice) (child : ¬ t.Ends (some i)) :
    ¬ t.Ends (some choice) ∧ ∀ b, t.payloadAt? choice = some (.branch b) →
      ¬ t.Ends b.thenBranch ∧ ¬ t.Ends b.elseBranch := by
  have nothing : ¬ t.Ends none := fun ends => by
    obtain ⟨_, there⟩ := endsThere ends
    cases there
  obtain ⟨held, body, alone⟩ := chooses
  refine ⟨openEnd forest held (by simp [Payload.form]) (by simp) ?_, ?_⟩
  · rintro b ⟨⟩
    exact nothing
  · intro b held'
    cases held.symm.trans held'
    refine ⟨openEnd forest body (by simp [Payload.form]) ?_ (by simp), nothing⟩
    rintro l last ⟨⟩ final
    rw [alone, List.getLast?_singleton] at final
    cases final
    exact child

/- Fixes are put around statements that go on, and what they put there goes on, too. -/
theorem wrappedOpen (w : t.Wrapped t' v) (old : t.Forest) (new : t'.Forest) (inside : i < t.size) :
    v.outer i = v.inner i ∨
      (¬ t.Ends (some i) ∧ ∀ b, t.payloadAt? i ≠ some (.branch b)) ∧
        ¬ t'.Ends (some (v.outer i)) ∧ ∀ b, t'.payloadAt? (v.outer i) = some (.branch b) →
          ¬ t'.Ends b.thenBranch ∧ ¬ t'.Ends b.elseBranch := by
  have inner (covered : t.kindIs NodeKind.isCovered i = true) : ¬ t'.Ends (some (v.inner i)) :=
    (coveredOpen new (by rw [kindIsMoved w inside]; exact covered)).1
  have statement (kind : t.kind? i = some .expressionStatement) :
      t.kindIs NodeKind.isCovered i = true := kindIsHeld.mpr ⟨_, kind, rfl⟩
  have shape := w.wraps i inside
  unfold Move.outer
  generalize v.wrapping i = x at shape ⊢
  cases shape with
  | bare => exact .inl rfl
  | statement kind choice =>
    exact .inr ⟨coveredOpen old (statement kind), chooseOpen new choice (inner (statement kind))⟩
  | braced kind held only choice =>
    refine .inr ⟨coveredOpen old (statement kind), openEnd new held (by simp [Payload.form]) ?_ (by simp), ?_⟩
    · rintro l last ⟨⟩ final
      rw [only, List.getLast?_singleton] at final
      cases final
      exact (chooseOpen new choice (inner (statement kind))).1
    · intro b held'
      cases held.symm.trans held'
  | body covered _ _ choice =>
    refine .inr ⟨coveredOpen old covered, openEnd new choice (by simp [Payload.form]) (by simp) (by simp), ?_⟩
    intro b held
    cases choice.symm.trans held
  | leaf site _ _ held _ _ =>
    refine .inr ⟨coveredOpen old (siteCovered old site),
      openEnd new held (by simp [Payload.form]) (by simp) (by simp), ?_⟩
    intro b held'
    cases held.symm.trans held'
  | parens enclosed =>
    refine .inr ⟨freeOpen old enclosed.free,
      openEnd new enclosed.held (by simp [Payload.form]) (by simp) (by simp), ?_⟩
    intro b held
    cases enclosed.held.symm.trans held

theorem endsMoved (w : t.Wrapped t' v) (old : t.Forest) (new : t'.Forest) (inside : t.Inside s) :
    t'.Ends (v.slot s) ↔ t.Ends s := by
  have bare {i : NodeId} (inside : i < t.size)
      (ends : t'.Ends (some (v.outer i)) ∨ t.Ends (some i)) : v.outer i = v.inner i := by
    rcases wrappedOpen w old new inside with bare | ⟨⟨stays, _⟩, stays', _⟩
    · exact bare
    · rcases ends with ends | ends
      · exact absurd ends stays'
      · exact absurd ends stays
  constructor
  · intro ends
    generalize same : v.slot s = s' at ends
    induction ends generalizing s with
    | jump kind leaves =>
      obtain ⟨i, rfl, rfl⟩ := Option.map_eq_some_iff.mp same
      rw [bare (insideSize inside) (.inl (.jump kind leaves)), w.kind i (insideSize inside)] at kind
      exact .jump kind leaves
    | @block _ l last held final rest ih =>
      obtain ⟨j, rfl, held'⟩ := Option.bind_eq_some_iff.mp held
      obtain ⟨i, rfl, rfl⟩ := Option.map_eq_some_iff.mp same
      rw [bare (insideSize inside) (.inl (.block held final rest))] at held'
      obtain ⟨p, old', alike⟩ := heldMoved w (insideSize inside) held'
      cases alike with
      | @block l' _ items =>
        rw [items, List.getLast?_map] at final
        obtain ⟨last', final', rfl⟩ := Option.map_eq_some_iff.mp final
        have own : last' ∈ (Payload.block l').slots := List.mem_of_getLast? final'
        exact .block old' final' (ih (slotInside (s := some i) old old' own) rfl)
      | other form unread => rw [← form] at unread; cases unread
    | @branch _ b held yes no ihYes ihNo =>
      obtain ⟨j, rfl, held'⟩ := Option.bind_eq_some_iff.mp held
      obtain ⟨i, rfl, rfl⟩ := Option.map_eq_some_iff.mp same
      rw [bare (insideSize inside) (.inl (.branch held yes no))] at held'
      obtain ⟨p, old', alike⟩ := heldMoved w (insideSize inside) held'
      cases alike with
      | @branch b =>
        have part {child : Slot} (own : child ∈ (Payload.branch b).slots) : t.Inside child :=
          slotInside (s := some i) old old' own
        exact .branch old' (ihYes (part (by simp [Payload.slots])) rfl)
          (ihNo (part (by simp [Payload.slots])) rfl)
      | other form unread => rw [← form] at unread; cases unread
  · intro ends
    induction ends with
    | @jump i k kind leaves =>
      refine .jump ?_ leaves
      rw [bare (insideSize inside) (.inr (.jump kind leaves)), w.kind i (insideSize inside)]
      exact kind
    | @block s l last held final rest ih =>
      obtain ⟨i, rfl, held'⟩ := Option.bind_eq_some_iff.mp held
      have own : last ∈ (Payload.block l).slots := List.mem_of_getLast? final
      have further := ih (slotInside old held own)
      obtain ⟨q, new', alike, _⟩ := movedHeld w held'
      rw [← bare (insideSize inside) (.inr (.block held final rest))] at new'
      cases alike with
      | @block _ m items =>
        refine .block (s := some (v.outer i)) new' ?_ further
        rw [items, List.getLast?_map, final]
        rfl
      | other _ unread => cases unread
    | @branch s b held yes no ihYes ihNo =>
      obtain ⟨i, rfl, held'⟩ := Option.bind_eq_some_iff.mp held
      obtain ⟨q, new', alike, _⟩ := movedHeld w held'
      rw [← bare (insideSize inside) (.inr (.branch held yes no))] at new'
      cases alike with
      | branch =>
        exact .branch (s := some (v.outer i)) new' (ihYes (slotInside old held (by simp [Payload.slots])))
          (ihNo (slotInside old held (by simp [Payload.slots])))
      | other _ unread => cases unread

theorem childMoved {c k : NodeId} (w : t.Wrapped t' v) (old : t.Forest) (new : t'.Forest)
    (parent : t.parent? c = some k) (held : t.payloadAt? k = some p) (own : s ∈ p.slots) :
    v.slot s = some (v.outer c) ↔ s = some c := by
  constructor
  · intro same
    obtain ⟨i, rfl, agree⟩ := Option.map_eq_some_iff.mp same
    rw [outerOnce w old new (heldParent old held own) parent agree]
  · rintro rfl
    rfl

theorem listHeld {row : List Slot} (list : t.statementList? i = some row) :
    ∃ p, t.payloadAt? i = some p ∧ p.slots = row := by
  unfold statementList? at list
  split at list <;> cases list
  · exact ⟨_, ‹_›, rfl⟩
  · exact ⟨_, ‹_›, rfl⟩

theorem listMoved (w : t.Wrapped t' v) (inside : i < t.size) :
    t'.statementList? (v.inner i) = (t.statementList? i).map (List.map v.slot) := by
  unfold statementList?
  cases held : t.payloadAt? i with
  | none => rw [movedAbsent w inside held]; rfl
  | some p =>
    obtain ⟨q, held', alike, _⟩ := movedHeld w held
    rw [held']
    cases alike with
    | block items => exact congrArg some items
    | sourceFile items => exact congrArg some items
    | other same unread => cases p <;> cases unread <;> cases q <;> cases same <;> rfl
    | _ => rfl

end Tree

/-! ### Facts -/

/- What was tested when a child is reached: the child, the test and its value. -/
def Payload.tells : Payload → List (Slot × Slot × Bool)
  | .branch b => [(b.thenBranch, b.test, true), (b.elseBranch, b.test, false)]
  | .conditional c => [(c.whenTrue, c.condition, true), (c.whenFalse, c.condition, false)]
  | .binary b =>
    if b.op = .token (.punct .ampersandAmpersand) then [(b.right, b.left, true)]
    else if b.op = .token (.punct .barBar) then [(b.right, b.left, false)]
    else []
  | _ => []

theorem tellsOwn {p : Payload} {child test : Slot} {value : Bool}
    (told : (child, test, value) ∈ p.tells) :
    child ∈ p.slots ∧ test ∈ p.slots ∧ ∀ f, p ≠ .function f := by
  cases p with
  | binary b =>
    simp only [Payload.tells] at told
    split at told
    · cases List.mem_singleton.mp told
      simp [Payload.slots]
    · split at told
      · cases List.mem_singleton.mp told
        simp [Payload.slots]
      · cases told
  | branch b => rcases List.mem_pair.mp told with same | same <;> cases same <;> simp [Payload.slots]
  | conditional c =>
    rcases List.mem_pair.mp told with same | same <;> cases same <;> simp [Payload.slots]
  | _ => cases told

theorem tellsMoved {v : Move} {p q : Payload} (alike : p.Alike v.outer q) :
    q.tells = p.tells.map fun x => (v.slot x.1, v.slot x.2.1, x.2.2) := by
  cases alike with
  | binary => simp only [Payload.tells]; split; rfl; split <;> rfl
  | other same unread => cases p <;> cases unread <;> cases q <;> cases same <;> rfl
  | _ => rfl

namespace ConditionMatcher

def Told (m : ConditionMatcher) (current child : NodeId) : Prop :=
  ∃ f, m.tree.BranchFact current child f ∧ m.Accepts f

def Left (m : ConditionMatcher) (row : List Slot) (child : NodeId) : Prop :=
  ∃ gap f, m.tree.ExitFact m.tree.Ends row child gap f ∧ m.Accepts f

variable {v : Move} {m m' : ConditionMatcher} {current child : NodeId} {p : Payload} {s : Slot}

def Safe (m : ConditionMatcher) (test : Slot) (value : Bool) : Prop :=
  (if value then m.affirms test else m.denies test) = true

theorem toldHeld (held : m.tree.payloadAt? current = some p) :
    m.Told current child ↔ ∃ test value, (some child, test, value) ∈ p.tells ∧ m.Safe test value := by
  constructor
  · rintro ⟨f, fact, accepted⟩
    refine ⟨f.test, f.value, ?_, accepted⟩
    cases fact with
    | thenBranch held' via => cases held.symm.trans held'; simp [Payload.tells, via]
    | elseBranch held' via => cases held.symm.trans held'; simp [Payload.tells, via]
    | whenTrue held' via => cases held.symm.trans held'; simp [Payload.tells, via]
    | whenFalse held' via => cases held.symm.trans held'; simp [Payload.tells, via]
    | afterAnd held' via op => cases held.symm.trans held'; simp [Payload.tells, via, op]
    | afterOr held' via op => cases held.symm.trans held'; simp [Payload.tells, via, op]
  · rintro ⟨test, value, told, safe⟩
    cases p with
    | branch b =>
      simp only [Payload.tells, List.mem_cons, Prod.mk.injEq, List.not_mem_nil, or_false] at told
      rcases told with ⟨via, rfl, rfl⟩ | ⟨via, rfl, rfl⟩
      · exact ⟨_, .thenBranch held via.symm, safe⟩
      · exact ⟨_, .elseBranch held via.symm, safe⟩
    | conditional c =>
      simp only [Payload.tells, List.mem_cons, Prod.mk.injEq, List.not_mem_nil, or_false] at told
      rcases told with ⟨via, rfl, rfl⟩ | ⟨via, rfl, rfl⟩
      · exact ⟨_, .whenTrue held via.symm, safe⟩
      · exact ⟨_, .whenFalse held via.symm, safe⟩
    | binary b =>
      simp only [Payload.tells] at told
      split at told
      · rename_i op
        obtain ⟨via, rfl, rfl⟩ := Prod.mk.inj (List.mem_singleton.mp told) |>.imp id Prod.mk.inj
        exact ⟨_, .afterAnd held via.symm op, safe⟩
      · split at told
        · rename_i op
          obtain ⟨via, rfl, rfl⟩ := Prod.mk.inj (List.mem_singleton.mp told) |>.imp id Prod.mk.inj
          exact ⟨_, .afterOr held via.symm op, safe⟩
        · cases told
    | _ => cases told

theorem partMoved (follows : m.Follows v m') (held : m.tree.payloadAt? current = some p)
    (own : s ∈ p.slots) (other : ∀ f, p ≠ .function f) (value : Bool) :
    m'.Safe (v.slot s) value ↔ m.Safe s value := by
  have held : m.tree.payload? (some current) = some p := held
  have inside := Tree.slotInside follows.old held own
  have bodiless := Tree.ownBodiless follows.old held own other
  unfold Safe affirms denies
  rw [impliesMoved follows _ inside bodiless, impliesMoved follows _ inside bodiless]

theorem toldMoved (follows : m.Follows v m') (parent : m.tree.parent? child = some current) :
    m'.Told (v.inner current) (v.outer child) ↔ m.Told current child := by
  obtain ⟨p, held, _⟩ := Tree.parentHeld follows.old parent
  obtain ⟨q, held', alike, _⟩ := Tree.movedHeld follows.wrapped held
  rw [toldHeld held, toldHeld held', tellsMoved alike]
  constructor
  · rintro ⟨test, value, told, safe⟩
    obtain ⟨⟨via, test, value⟩, listed, same⟩ := List.mem_map.mp told
    obtain ⟨place, rfl, rfl⟩ := Prod.mk.inj same |>.imp id Prod.mk.inj
    obtain ⟨ownChild, ownTest, other⟩ := tellsOwn listed
    cases (Tree.childMoved follows.wrapped follows.old follows.new parent held ownChild).mp place
    exact ⟨test, value, listed, (partMoved follows held ownTest other value).mp safe⟩
  · rintro ⟨test, value, told, safe⟩
    obtain ⟨_, ownTest, other⟩ := tellsOwn told
    exact ⟨_, _, List.mem_map.mpr ⟨_, told, rfl⟩, (partMoved follows held ownTest other value).mpr safe⟩

theorem leftHeld {row : List Slot} : m.Left row child ↔ ∃ earlier between later g b,
    row = earlier ++ some g :: between ++ some child :: later ∧
      m.tree.payloadAt? g = some (.branch b) ∧
        (m.tree.Ends b.thenBranch ∧ m.Safe b.test false ∨
          m.tree.Ends b.elseBranch ∧ m.Safe b.test true) := by
  constructor
  · rintro ⟨gap, f, fact, accepted⟩
    cases fact with
    | thenLeaves place held gone => exact ⟨_, _, _, _, _, place, held, .inl ⟨gone, accepted⟩⟩
    | elseLeaves place held gone => exact ⟨_, _, _, _, _, place, held, .inr ⟨gone, accepted⟩⟩
  · rintro ⟨earlier, between, later, g, b, place, held, ⟨gone, safe⟩ | ⟨gone, safe⟩⟩
    · exact ⟨_, _, .thenLeaves place held gone, safe⟩
    · exact ⟨_, _, .elseLeaves place held gone, safe⟩

theorem branchParts (follows : m.Follows v m') {g : NodeId} {b : Branch}
    (held : m.tree.payloadAt? g = some (.branch b)) :
    (m'.tree.Ends (v.slot b.thenBranch) ∧ m'.Safe (v.slot b.test) false ∨
      m'.tree.Ends (v.slot b.elseBranch) ∧ m'.Safe (v.slot b.test) true) ↔
    (m.tree.Ends b.thenBranch ∧ m.Safe b.test false ∨
      m.tree.Ends b.elseBranch ∧ m.Safe b.test true) := by
  have ends {s : Slot} (own : s ∈ (Payload.branch b).slots) :
      m'.tree.Ends (v.slot s) ↔ m.tree.Ends s :=
    Tree.endsMoved follows.wrapped follows.old follows.new
      (Tree.slotInside (s := some g) follows.old held own)
  have safe (value : Bool) : m'.Safe (v.slot b.test) value ↔ m.Safe b.test value :=
    partMoved follows held (by simp [Payload.slots]) nofun value
  rw [ends (by simp [Payload.slots]), ends (by simp [Payload.slots]), safe, safe]

/- What an earlier statement tells is lost only with the row that it stands in. -/
theorem leftMoved {row : List Slot} (follows : m.Follows v m')
    (parent : m.tree.parent? child = some current)
    (list : m.tree.statementList? current = some row) :
    m'.Left (row.map v.slot) (v.outer child) ↔ m.Left row child := by
  have w := follows.wrapped
  obtain ⟨p, held, rfl⟩ := Tree.listHeld list
  have inside {s : Slot} (own : s ∈ p.slots) : m.tree.Inside s :=
    Tree.slotInside (s := some current) follows.old held own
  rw [leftHeld, leftHeld]
  constructor
  · rintro ⟨before, between, after, g, b, place, choice, tells⟩
    obtain ⟨front, back, row, fronts, backs⟩ := List.map_eq_append_iff.mp place
    obtain ⟨earlier, middle, rfl, rfl, middles⟩ := List.map_eq_append_iff.mp fronts
    obtain ⟨s, between, rfl, guard, rfl⟩ := List.map_eq_cons_iff.mp middles
    obtain ⟨c, later, rfl, same, rfl⟩ := List.map_eq_cons_iff.mp backs
    obtain ⟨i, rfl, rfl⟩ := Option.map_eq_some_iff.mp guard
    have here := (Tree.childMoved w follows.old follows.new parent held (by simp [row])).mp same
    have within := Tree.insideSize (inside (s := some i) (by simp [row]))
    rcases Tree.wrappedOpen w follows.old follows.new within with bare | ⟨_, _, stays⟩
    · rw [bare] at choice
      obtain ⟨q, old, alike⟩ := Tree.heldMoved w within choice
      cases alike with
      | @branch b =>
        rw [here] at row
        exact ⟨_, _, _, _, _, row, old, (branchParts follows old).mp tells⟩
      | other form unread => rw [← form] at unread; cases unread
    · rcases tells with ⟨gone, _⟩ | ⟨gone, _⟩
      · exact absurd gone (stays b choice).1
      · exact absurd gone (stays b choice).2
  · rintro ⟨earlier, between, later, g, b, place, choice, tells⟩
    have within := Tree.insideSize (inside (s := some g) (by simp [place]))
    rcases Tree.wrappedOpen w follows.old follows.new within with bare | ⟨⟨_, stays⟩, _⟩
    · obtain ⟨q, new, alike, _⟩ := Tree.movedHeld w choice
      rw [← bare] at new
      cases alike with
      | branch =>
        refine ⟨earlier.map v.slot, between.map v.slot, later.map v.slot, _, _, ?_, new,
          (branchParts follows choice).mpr tells⟩
        simp [place, Move.slot]
      | other _ unread => cases unread
    · exact absurd choice (stays b)

end ConditionMatcher
end CallGuard
