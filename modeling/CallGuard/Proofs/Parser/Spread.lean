import CallGuard.Proofs.Parser.Consumption

/-! Where calls stand. A reader adds calls at places of their own: what it adds ends behind the token
at hand, and what was there before ends in front of it. Only a call and the calls among its arguments
may end together, and those begin behind its bracket or its `new`. -/
namespace CallGuard

/- The place of a call or a construction. -/
def Node.callPlace? (n : Node) : Option (Nat × Nat) :=
  if n.kind.isCall then some (n.start, n.stop) else none

theorem Node.callPlaced {n : Node} {c : Nat × Nat} (own : c ∈ n.callPlace?.toList) :
    c = (n.start, n.stop) := by
  obtain ⟨-, same⟩ := Option.ite_none_right_eq_some.mp (Option.mem_toList.mp own)
  exact (Option.some.inj same).symm

namespace Tree

/- The places of all calls in the order in which they were added. -/
def callPlaces (t : Tree) : List (Nat × Nat) := t.nodes.toList.filterMap Node.callPlace?

theorem placesSame {t u : Tree}
    (same : ∀ i, (t.get? i).map Node.callPlace? = (u.get? i).map Node.callPlace?) :
    t.callPlaces = u.callPlaces := by
  have each (v : Tree) : v.callPlaces = (v.nodes.toList.map Node.callPlace?).filterMap id := by
    rw [List.filterMap_map]
    rfl
  rw [each, each]
  refine congrArg _ (List.ext_getElem? fun i => ?_)
  rw [List.getElem?_map, List.getElem?_map, Array.getElem?_toList, Array.getElem?_toList]
  exact same i

theorem placesFlags (t : Tree) (i : NodeId) (marks : NodeFlags) :
    (t.addFlags i marks).callPlaces = t.callPlaces := by
  refine placesSame fun j => ?_
  unfold addFlags get?
  dsimp only
  rw [Array.getElem?_modify]
  split
  · cases t.nodes[j]? <;> rfl
  · rfl

theorem placesStop {t : Tree} {i : NodeId} {n : Node} (found : t.get? i = some n)
    (plain : n.kind.isCall = false) (stop : Nat) : (t.setStop i stop).callPlaces = t.callPlaces := by
  refine placesSame fun j => ?_
  by_cases same : i = j
  · subst same
    rw [stopOwn found, found]
    simp [Node.callPlace?, plain]
  · rw [stopOther same]

theorem placesAdd (t : Tree) (n : Node) :
    (t.add n).callPlaces = t.callPlaces ++ n.callPlace?.toList := by
  have pushed : (⟨t.nodes.push n, t.text?⟩ : Tree).callPlaces = t.callPlaces ++ n.callPlace?.toList := by
    unfold callPlaces
    rw [Array.toList_push, List.filterMap_append]
    cases placed : n.callPlace? <;> simp [placed]
  rw [← pushed]
  refine placesSame fun j => ?_
  rw [addAt]
  have now : (⟨t.nodes.push n, t.text?⟩ : Tree).get? j = if j = t.size then some n else t.get? j :=
    Array.getElem?_push
  rw [now, Option.map_map]
  congr 1
  funext m
  dsimp only [Function.comp]
  split <;> rfl

theorem placesPlain {t : Tree} {n : Node} (plain : n.kind.isCall = false) :
    (t.add n).callPlaces = t.callPlaces := by
  rw [placesAdd, Node.callPlace?, plain]
  exact List.append_nil _

theorem callListed {t : Tree} {i : NodeId} {n : Node} (found : t.get? i = some n)
    (call : n.kind.isCall = true) : (n.start, n.stop) ∈ t.callPlaces :=
  List.mem_filterMap.mpr ⟨n, Array.mem_toList_iff.mpr (Array.mem_of_getElem? found), if_pos call⟩

/- Where all calls stand at different places, a place tells the call. -/
theorem callAlone {t : Tree} (apart : t.callPlaces.Nodup) {i j : NodeId} {n m : Node}
    (found : t.get? i = some n) (found' : t.get? j = some m) (call : n.kind.isCall = true)
    (call' : m.kind.isCall = true) (start : n.start = m.start) (stop : n.stop = m.stop) : i = j := by
  have pairs := List.pairwise_filterMap.mp apart
  have earlier {i j : NodeId} {n m : Node} (less : i < j) (found : t.get? i = some n)
      (found' : t.get? j = some m) (call : n.kind.isCall = true) (call' : m.kind.isCall = true)
      (start : n.start = m.start) (stop : n.stop = m.stop) : False := by
    rw [get?, ← Array.getElem?_toList] at found found'
    obtain ⟨inside, rfl⟩ := List.getElem?_eq_some_iff.mp found
    obtain ⟨inside', rfl⟩ := List.getElem?_eq_some_iff.mp found'
    have differ := List.pairwise_iff_getElem.mp pairs i j inside inside' less
    exact differ _ (if_pos call) _ (if_pos call') (by rw [start, stop])
  rcases Nat.lt_trichotomy i j with less | same | more
  · exact (earlier less found found' call call' start stop).elim
  · exact same
  · exact (earlier more found' found call' call start.symm stop.symm).elim

end Tree

namespace Parse

/- The place of a call that is added between `s` and `s'`: it begins at `lo` or behind, and it ends
behind the token at hand in `s` with a token that was taken. -/
structure Fresh (lo : Nat) (s s' : ParseState) (c : Nat × Nat) : Prop where
  low : lo ≤ c.1
  wide : c.1 < c.2
  ahead : s.cursor.current.start < c.2
  taken : c.2 ≤ s'.cursor.prevStop

/- From `s` to `s'` the cursor goes on, and the calls that are added stand at different places. -/
structure Spread (lo : Nat) (s s' : ParseState) : Prop where
  ordered : s'.cursor.Ordered
  place : s.cursor.current.start ≤ s'.cursor.current.start
  stop : s.cursor.prevStop ≤ s'.cursor.prevStop
  calls : ∃ added, s'.tree.callPlaces = s.tree.callPlaces ++ added ∧ added.Nodup ∧
    ∀ c ∈ added, Fresh lo s s' c

/- A call that begins at `start` is under way since `s₀`. A token was taken for it, so all that is
added for it begins behind its own beginning. -/
structure CallBegun (start : Nat) (s₀ s : ParseState) : Prop extends Spread (start + 1) s₀ s where
  begun : start ≤ s₀.cursor.current.start
  taken : s₀.cursor.current.start < s.cursor.prevStop

section
variable {lo start : Nat} {s₀ s s' s'' : ParseState}

theorem Spread.behind (spread : Spread lo s s') : s'.cursor.prevStop ≤ s'.cursor.current.start :=
  Token.rowBehind spread.ordered.row

theorem Spread.run {ids : List NodeId} (run : Run s ids s') (ordered : s.cursor.Ordered)
    (same : s'.tree.callPlaces = s.tree.callPlaces) : Spread lo s s' :=
  ⟨runOrdered run ordered, (runPlace run ordered).1, (runStop run ordered).1, [],
    by rw [same, List.append_nil], List.nodup_nil, List.forall_mem_nil _⟩

theorem Spread.aside (ordered : s.cursor.Ordered) (cursor : s'.cursor = s.cursor)
    (places : s'.tree.callPlaces = s.tree.callPlaces) : Spread lo s s' :=
  ⟨cursor ▸ ordered, Nat.le_of_eq (by rw [cursor]), Nat.le_of_eq (by rw [cursor]), [],
    by rw [places, List.append_nil], List.nodup_nil, List.forall_mem_nil _⟩

theorem Spread.refl (ordered : s.cursor.Ordered) : Spread lo s s := .run (.rest s) ordered rfl

theorem Spread.lower {low : Nat} (spread : Spread lo s s') (le : low ≤ lo) : Spread low s s' := by
  obtain ⟨added, behind, apart, fresh⟩ := spread.calls
  refine ⟨spread.ordered, spread.place, spread.stop, added, behind, apart, fun c member => ?_⟩
  exact { fresh c member with low := Nat.le_trans le (fresh c member).low }

/- What is added later ends behind all that was added before. -/
theorem Spread.trans (one : Spread lo s s') (two : Spread lo s' s'') : Spread lo s s'' := by
  obtain ⟨added, behind, apart, fresh⟩ := one.calls
  obtain ⟨more, behind', apart', fresh'⟩ := two.calls
  refine ⟨two.ordered, Nat.le_trans one.place two.place, Nat.le_trans one.stop two.stop, added ++ more,
    by rw [behind', behind, List.append_assoc], ?_, List.forall_mem_append.mpr ⟨fun c early => ?_,
      fun c late => ?_⟩⟩
  · refine List.nodup_append.mpr ⟨apart, apart', fun c early d late same => ?_⟩
    have between := Nat.le_trans (fresh c early).taken one.behind
    rw [same] at between
    exact Nat.not_lt.mpr between (fresh' d late).ahead
  · exact { fresh c early with taken := Nat.le_trans (fresh c early).taken two.stop }
  · exact { fresh' c late with ahead := Nat.lt_of_le_of_lt one.place (fresh' c late).ahead }

theorem CallBegun.ahead (way : CallBegun start s₀ s) : start + 1 ≤ s.cursor.current.start :=
  Nat.le_trans (Nat.lt_of_le_of_lt way.begun way.taken) way.behind

theorem CallBegun.trans (way : CallBegun start s₀ s) (more : Spread (start + 1) s s') :
    CallBegun start s₀ s' :=
  ⟨way.toSpread.trans more, way.begun, Nat.lt_of_lt_of_le way.taken more.stop⟩

/- The call itself begins in front of all that was added for it. -/
theorem CallBegun.closed (way : CallBegun start s₀ s) {n : Node} (place : n.start = start)
    (stop : n.stop = s.cursor.prevStop) : Spread start s₀ { s with tree := s.tree.add n } := by
  obtain ⟨added, behind, apart, fresh⟩ := way.calls
  refine ⟨way.ordered, way.place, way.stop, added ++ n.callPlace?.toList,
    by rw [Tree.placesAdd, behind, List.append_assoc], ?_, List.forall_mem_append.mpr ⟨fun c early => ?_,
      fun c own => ?_⟩⟩
  · have alone : n.callPlace?.toList.Nodup := by cases n.callPlace? <;> simp
    refine List.nodup_append.mpr ⟨apart, alone, fun c early d own same => ?_⟩
    have later := (fresh c early).low
    rw [same, Node.callPlaced own] at later
    exact absurd place (Nat.ne_of_gt later)
  · exact { fresh c early with low := Nat.le_of_succ_le (fresh c early).low }
  · rw [Node.callPlaced own]
    exact
      { low := Nat.le_of_eq place.symm
        wide := stop ▸ place ▸ Nat.lt_of_le_of_lt way.begun way.taken
        ahead := stop ▸ way.taken
        taken := Nat.le_of_eq stop }

end

/- Types are no calls. -/
theorem straysPlaces {s s' : ParseState} (strays : Strays s s') :
    s'.tree.callPlaces = s.tree.callPlaces := by
  obtain ⟨added, behind, stray⟩ := strays.nodes
  have none : added.filterMap Node.callPlace? = [] :=
    List.filterMap_eq_nil_iff.mpr fun n member => by rw [Node.callPlace?, (stray n member).kind]; rfl
  rw [Tree.callPlaces, behind, List.filterMap_append, none, List.append_nil]
  rfl

/- A reader adds calls at places of their own, none of them in front of `lo`. The token at hand is
given where it matters. -/
def Spreads {α : Type} (known : Option Token) (lo : Nat) (p : Parse α) : Prop :=
  ∀ s, s.cursor.Ordered → (∀ t ∈ known, s.cursor.current = t) → lo ≤ s.cursor.current.start →
    Spread lo s (p s).2

/- A reader takes the token that opens the call that begins at `start`. -/
def Opens {α : Type} (t : Token) (start : Nat) (p : Parse α) : Prop :=
  ∀ s, s.cursor.Ordered → s.cursor.current = t → start ≤ t.start → CallBegun start s (p s).2

/- A reader goes on with a call that is under way, up to its end. -/
def Closes {α : Type} (start : Nat) (p : Parse α) : Prop :=
  ∀ s₀ s, CallBegun start s₀ s → Spread start s₀ (p s).2

namespace Spreads
variable {α β σ : Type} {known : Option Token} {t : Token} {lo r : Nat} {a : Progress}
  {p q : Parse α} {f : α → Parse β}

theorem anywhere (h : Spreads none lo p) : Spreads known lo p :=
  fun s ordered _ low => h s ordered (unknown s) low

theorem know (h : ∀ t, Spreads (some t) lo p) : Spreads known lo p := by
  intro s ordered _ low
  refine h s.cursor.current s ordered ?_ low
  rintro t ⟨⟩
  rfl

theorem see {g : Token → α} (sees : Sees p g) (rest : Spreads (some t) lo (f (g t))) :
    Spreads (some t) lo (p >>= f) := by
  intro s ordered there low
  obtain rfl := there t rfl
  rw [bindAt, sees s]
  exact rest s ordered there low

theorem bind (first : Spreads known lo p) (rest : ∀ x, Spreads none lo (f x)) :
    Spreads known lo (p >>= f) := by
  intro s ordered there low
  have one := first s ordered there low
  exact one.trans (rest _ _ one.ordered (unknown _) (Nat.le_trans low one.place))

/- Everything from here on begins here or behind. -/
theorem here {f : Nat → Parse β} (rest : ∀ start, Spreads known start (f start)) :
    Spreads known lo (Parse.here >>= f) :=
  fun s ordered there low => (rest _ s ordered there (Nat.le_refl _)).lower low

theorem branch {c : Prop} [Decidable c] {p q : Parse α} (yes : c → Spreads known lo p)
    (no : ¬ c → Spreads known lo q) : Spreads known lo (if c then p else q) := by
  split
  · exact yes ‹c›
  · exact no ‹¬ c›

theorem still (same : ∀ s, (p s).2 = s) : Spreads known lo p := by
  intro s ordered _ _
  rw [same]
  exact .refl ordered

/- A step that stays where it is and adds no call. -/
theorem aside (cursor : ∀ s, (p s).2.cursor = s.cursor)
    (places : ∀ s, (p s).2.tree.callPlaces = s.tree.callPlaces) : Spreads known lo p :=
  fun s ordered _ _ => .aside ordered (cursor s) (places s)

theorem pure (x : α) : Spreads known lo (Pure.pure x : Parse α) := still fun _ => rfl
theorem kind : Spreads known lo Parse.kind := still fun _ => rfl
theorem token : Spreads known lo Parse.token := still fun _ => rfl
theorem isAt (k : TokenKind) : Spreads known lo (Parse.isAt k) := still fun _ => rfl
theorem afterLineBreak : Spreads known lo Parse.afterLineBreak := still fun _ => rfl
theorem contextual (word : String) : Spreads known lo (isContextual word) := still fun _ => rfl
theorem canEnd : Spreads known lo canEndStatement := still fun _ => rfl

theorem quiet [Refs α] (strolls : Strolls p) (reads : Reads none r a p p) : Spreads known lo p :=
  fun s ordered _ _ => .run (reads.run ordered) ordered (straysPlaces (strolls s))

theorem look (strolls : Strolls p) : Spreads known lo (lookAhead p) :=
  .aside (fun _ => rfl) fun s => straysPlaces (Strolls.look strolls s)

theorem ahead {f : α → Parse β} (strolls : Strolls p) (rest : ∀ x, Spreads known lo (f x)) :
    Spreads known lo (lookAhead p >>= f) := by
  intro s ordered there low
  have one := look strolls s ordered there low
  exact one.trans (rest _ _ ordered there low)

theorem advance : Spreads known lo Parse.advance := fun s ordered _ _ => .run (.advance s) ordered rfl

theorem report (fault : SyntaxFault) : Spreads known lo (reportHere fault) :=
  fun s ordered _ _ => .run (.report s fault) ordered rfl

theorem node {n : Node} (plain : n.kind.isCall = false) : Spreads known lo (addNode n) :=
  .aside (fun _ => rfl) fun _ => Tree.placesPlain plain

theorem flags (x : Slot) (marks : NodeFlags) : Spreads known lo (addFlags x marks) := by
  cases x with
  | none => exact .pure ()
  | some i => exact .aside (fun _ => rfl) fun _ => Tree.placesFlags _ _ _

theorem accept (k : TokenKind) : Spreads known lo (Parse.accept k) :=
  .bind (.isAt k) fun _ => .branch (fun _ => .bind .advance fun _ => .pure _) fun _ => .pure _

theorem expect (k : TokenKind) : Spreads known lo (Parse.expect k) :=
  .bind (.accept k) fun _ => .branch (fun _ => .pure _) fun _ => .report _

theorem enter : Spreads known lo Parse.enter :=
  .bind (.still fun _ => rfl) fun _ => .branch (fun _ => .bind (.report _) fun _ => .pure _)
    fun _ => .bind (.aside (fun _ => rfl) fun _ => rfl) fun _ => .pure _

theorem leave : Spreads known lo Parse.leave := .aside (fun _ => rfl) fun _ => rfl

theorem nested (otherwise : Spreads none lo p) (body : Spreads none lo q) :
    Spreads known lo (Parse.nested p q) :=
  .bind .enter fun _ => .branch (fun _ => .bind body fun _ => .bind .leave fun _ => .pure _)
    fun _ => otherwise

theorem within (forbidden : Bool) (inner : Spreads none lo p) :
    Spreads known lo (withInForbidden forbidden p) :=
  .bind (.still fun _ => rfl) fun _ => .bind (.aside (fun _ => rfl) fun _ => rfl) fun _ =>
    .bind inner fun _ => .bind (.aside (fun _ => rfl) fun _ => rfl) fun _ => .pure _

theorem finish {kind : NodeKind} (plain : kind.isCall = false) (start : Nat) (x : Payload) :
    Spreads known lo (Parse.finish kind start x) :=
  .bind (.still fun _ => rfl) fun _ => .node plain

theorem row (start : Nat) (items : List Slot) : Spreads known lo (listFrom start items) :=
  .still fun _ => rfl

theorem loop {step : σ → Parse (ForInStep σ)} (round : ∀ x, Spreads none lo (step x)) (x : σ) :
    Spreads known lo (Parse.loop step x) := by
  have rounds (ts : List Token) (x : σ) : Spreads none lo (repeatOver step ts x) := by
    induction ts generalizing x with
    | nil => exact .bind (round x) fun | .done a | .yield a => .pure a
    | cons t ts ih =>
      refine .bind (round x) fun
        | .done a => .pure a
        | .yield a => ih a
  exact .bind (.still fun _ => rfl) fun s => rounds s.cursor.upcoming x

/- A call from the token that opens it up to its end. -/
theorem call (opens : Opens t lo p) (closes : ∀ x, Closes lo (f x)) :
    Spreads (some t) lo (p >>= f) := by
  intro s ordered there low
  have now := there t rfl
  exact closes _ s _ (opens s ordered now (now ▸ low))

end Spreads

namespace Opens
variable {α β : Type} {t : Token} {start : Nat} {p : Parse α} {f : α → Parse β}

theorem here {f : Nat → Parse β} (rest : Opens t start (f t.start)) : Opens t start (Parse.here >>= f) := by
  intro s ordered there low
  obtain rfl := there
  exact rest s ordered rfl low

theorem expect {k : TokenKind} [k.Proper] (there : t.kind = k) : Opens t start (expect k) := by
  intro s ordered now low
  obtain rfl := now
  rw [expectThere there]
  have run : Run s [] (Parse.advance s).2 := .advance s
  have fewer := nextSpends ordered (moreThere there)
  exact ⟨.run run ordered rfl, low, (runStop run ordered).2 (Nat.lt_of_succ_le (Nat.le_of_eq fewer))⟩

theorem next (first : Opens t start p) (rest : ∀ x, Spreads none (start + 1) (f x)) :
    Opens t start (p >>= f) := by
  intro s ordered there low
  have way := first s ordered there low
  exact way.trans (rest _ _ way.ordered (unknown _) way.ahead)

end Opens

namespace Closes
variable {α β : Type} {start : Nat} {p q : Parse α} {f : α → Parse β}

theorem next (first : Spreads none (start + 1) p) (rest : ∀ x, Closes start (f x)) :
    Closes start (p >>= f) := by
  intro s₀ s way
  exact rest _ s₀ _ (way.trans (first s way.ordered (unknown s) way.ahead))

theorem branch {c : Prop} [Decidable c] (yes : Closes start p) (no : Closes start q) :
    Closes start (if c then p else q) := by
  split
  · exact yes
  · exact no

/- Whatever else is read behind the token is no part of a call. -/
theorem ends (h : Spreads none (start + 1) p) : Closes start p :=
  fun _ s way => (way.trans (h s way.ordered (unknown s) way.ahead)).toSpread.lower (Nat.le_succ start)

theorem finish (kind : NodeKind) (x : Payload) : Closes start (finish kind start x) :=
  fun _ _ way => way.closed rfl rfl

end Closes

end Parse
end CallGuard
