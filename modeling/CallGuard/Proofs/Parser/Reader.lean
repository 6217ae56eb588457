import CallGuard.Proofs.Parser.Trace

/-! How readers are put together. A reader is compared with one that reads its parts in another way:
where the parts agree, so do the two, and what they do is a trace. Both take the same steps, so each
way of putting readers together is one lemma about the two of them. -/
namespace CallGuard

/- A kind of token that is not the end of a text. -/
class TokenKind.Proper (k : TokenKind) : Prop where
  notEnd : k ≠ .endOfFile

namespace TokenKind

instance (p : Punctuator) : Proper (.punct p) := ⟨nofun⟩
instance (w : Keyword) : Proper (.word w) := ⟨nofun⟩
instance : Proper .identifier := ⟨nofun⟩
instance : Proper .numericLiteral := ⟨nofun⟩
instance : Proper .stringLiteral := ⟨nofun⟩
instance : Proper .templateLiteral := ⟨nofun⟩

end TokenKind

namespace Parse

/- A part of a construct that began at `start` and for which the nodes `held` have been made. `m` is
what the construct has taken so far, `out` what it has taken behind the part, and `known` is the
token at hand where it matters. -/
def Goes {α : Type} [Refs α] (b : Option Nat) (r : Nat) (m : Progress) (known : Option Token)
    (start : Nat) (held : List NodeId) (out : Progress) (p p' : Parse α) : Prop :=
  ∀ s₀ s, s₀.cursor.current.start = start → (∀ t ∈ known, s.cursor.current = t) →
    Held b r m s₀ held s → p s = p' s ∧ Held b r out s₀ (refs (p s).1) (p s).2

/- A construct of its own. -/
def Reads {α : Type} [Refs α] (b : Option Nat) (r : Nat) (a : Progress) (p p' : Parse α) : Prop :=
  ∀ s, s.cursor.Ordered → Affords b r s → p s = p' s ∧ Held b r a s (refs (p s).1) (p s).2

/- The same where the token at hand is a given one. -/
def ReadsAt {α : Type} [Refs α] (b : Option Nat) (r : Nat) (a : Progress) (t : Token)
    (p p' : Parse α) : Prop :=
  ∀ s, s.cursor.current = t → s.cursor.Ordered → Affords b r s →
    p s = p' s ∧ Held b r a s (refs (p s).1) (p s).2

/- A reader that only looks at the token at hand. -/
def Sees {α : Type} (p : Parse α) (g : Token → α) : Prop := ∀ s, p s = (g s.cursor.current, s)

theorem bindAt {α β : Type} (p : Parse α) (f : α → Parse β) (s : ParseState) :
    (p >>= f) s = f (p s).1 (p s).2 := rfl

theorem bindSame {α β : Type} {p p' : Parse α} {f f' : α → Parse β} {s : ParseState}
    (same : p s = p' s) (rest : f (p s).1 (p s).2 = f' (p s).1 (p s).2) :
    (p >>= f) s = (p' >>= f') s := by
  rw [bindAt, bindAt, ← same]
  exact rest

theorem enterRoom {s : ParseState} (room : s.depth < maxNesting) :
    enter s = (true, { s with depth := s.depth + 1 }) := by
  show (ite (maxNesting ≤ s.depth) _ _ : Parse Bool) s = _
  rw [if_neg (Nat.not_le.mpr room)]
  rfl

theorem enterFull {s : ParseState} (full : maxNesting ≤ s.depth) :
    enter s = (false, (reportHere .nestedTooDeeply s).2) := by
  show (ite (maxNesting ≤ s.depth) _ _ : Parse Bool) s = _
  rw [if_pos full]
  rfl

/- The place of a fault is marked, also where one was reported there before. -/
theorem reportMarks (s : ParseState) (fault : SyntaxFault) :
    (reportHere fault s).2.cursor.lastErrorAt = some s.cursor.current.start := by
  show (s.cursor.report _ _ _).lastErrorAt = _
  unfold Cursor.report
  split
  · assumption
  · rfl

theorem expectThere {k : TokenKind} {s : ParseState} (there : s.cursor.current.kind = k) :
    expect k s = advance s := by
  have found : isAt k s = (true, s) := Prod.ext (beq_iff_eq.mpr there) rfl
  unfold expect accept
  rw [bindAt, bindAt, found]
  rfl

theorem acceptThere {k : TokenKind} {s : ParseState} (there : s.cursor.current.kind = k) :
    accept k s = (true, (advance s).2) := by
  have found : isAt k s = (true, s) := Prod.ext (beq_iff_eq.mpr there) rfl
  unfold accept
  rw [bindAt, found]
  rfl

theorem acceptElse {k : TokenKind} {s : ParseState} (differ : s.cursor.current.kind ≠ k) :
    accept k s = (false, s) := by
  have found : isAt k s = (false, s) := Prod.ext (beq_eq_false_iff_ne.mpr differ) rfl
  unfold accept
  rw [bindAt, found]
  rfl

theorem expectElse {k : TokenKind} {s : ParseState} (differ : s.cursor.current.kind ≠ k) :
    expect k s = reportHere (.tokenExpected k) s := by
  unfold expect
  rw [bindAt, acceptElse differ]
  rfl

theorem moreThere {t : Token} {k : TokenKind} [more : k.Proper] (there : t.kind = k) :
    t.isEnd = false :=
  beq_eq_false_iff_ne.mpr (there.trans_ne more.notEnd)

theorem unknown (s : ParseState) : ∀ t ∈ (none : Option Token), s.cursor.current = t := by
  rintro t ⟨⟩

section
variable {α β : Type} {b : Option Nat} {t : Token} {p q : Parse α}

/- A reader that looks further ahead and comes back to the token at hand. -/
def Peeks (b : Option Nat) (t : Token) (Q : α → Prop) (p : Parse α) : Prop :=
  ∀ s, s.cursor.current = t → s.cursor.Ordered → Affords b 0 s →
    (∃ looks, Course b.isSome s [] looks [] (p s).2) ∧ (p s).2.cursor = s.cursor ∧ Q (p s).1

namespace Peeks
variable {Q : α → Prop}

theorem look {Q : Bool → Prop} {a : Progress} (way : LookAhead)
    (h : ReadsAt b 0 a t way.body way.body)
    (result : ∀ s, s.cursor.current = t → Q (way.body s).1) : Peeks b t Q (lookAhead way.body) := by
  intro s there ordered fits
  obtain ⟨ts, looks, course, _⟩ := (h s there ordered fits).2.course
  exact ⟨⟨_, .look way course⟩, rfl, result s there⟩

theorem pure {x : α} (result : Q x) : Peeks b t Q (Pure.pure x) :=
  fun s _ _ _ => ⟨⟨[], .rest s⟩, rfl, result⟩

theorem see {γ : Type} {p : Parse γ} {g : Token → γ} {f : γ → Parse α} (sees : Sees p g)
    (rest : Peeks b t Q (f (g t))) : Peeks b t Q (p >>= f) := by
  rintro s rfl ordered fits
  rw [bindAt, sees s]
  exact rest s rfl ordered fits

theorem branch {c : Prop} [Decidable c] (yes : c → Peeks b t Q p) (no : ¬ c → Peeks b t Q q) :
    Peeks b t Q (if c then p else q) := by
  split
  · exact yes ‹c›
  · exact no ‹¬ c›

theorem reads [Refs α] [Quiet α] (h : ∀ t, Peeks b t Q p) : Reads b 0 .begun p p := by
  intro s ordered fits
  obtain ⟨⟨looks, course⟩, _⟩ := h s.cursor.current s rfl ordered fits
  exact ⟨rfl, ordered, fits, [], looks, by rw [Quiet.nothing]; exact course, trivial⟩

end Peeks

end

section
variable {α β σ : Type} [Refs α] [Refs β] [Refs σ] {b : Option Nat} {r r' : Nat}
  {m n a out mid : Progress} {known : Option Token} {t : Token} {start : Nat} {held used : List NodeId}
  {p p' q q' : Parse α} {f f' : α → Parse β}

/-! ### Constructs -/

theorem ReadsAt.anywhere (h : Reads b r a p p') : ReadsAt b r a t p p' :=
  fun s _ ordered fits => h s ordered fits

theorem Reads.at (h : ∀ t, ReadsAt b r a t p p') : Reads b r a p p' :=
  fun s ordered fits => h s.cursor.current s rfl ordered fits

theorem ReadsAt.plain (h : Goes b r .begun (some t) t.start [] a p p') : ReadsAt b r a t p p' := by
  rintro s rfl ordered fits
  refine h s s rfl ?_ (.begin ordered fits)
  rintro t ⟨⟩
  rfl

theorem Reads.plain (h : ∀ t, Goes b r .begun (some t) t.start [] a p p') : Reads b r a p p' :=
  .at fun t => .plain (h t)

/- A construct that keeps the place where it begins. -/
theorem ReadsAt.begins {f f' : Nat → Parse α}
    (h : Goes b r .begun (some t) t.start [] a (f t.start) (f' t.start)) :
    ReadsAt b r a t (here >>= f) (here >>= f') := by
  refine .plain fun s₀ s place there now => ?_
  obtain rfl := there t rfl
  exact h s₀ s place there now

theorem Reads.begins {f f' : Nat → Parse α}
    (h : ∀ t, Goes b r .begun (some t) t.start [] a (f t.start) (f' t.start)) :
    Reads b r a (here >>= f) (here >>= f') :=
  .at fun t => .begins (h t)

theorem ReadsAt.weaken [Within r' r] [a.Gives n] (h : ReadsAt b r' a t p p') : ReadsAt b r n t p p' := by
  intro s there ordered fits
  obtain ⟨same, read⟩ := h s there ordered fits.fewer
  obtain ⟨ts, looks, course, made⟩ := read.course
  exact ⟨same, ordered, fits, ts, looks, course, Progress.madeGives made⟩

theorem Reads.weaken [Within r' r] [a.Gives n] (h : Reads b r' a p p') : Reads b r n p p' :=
  .at fun _ => .weaken (.anywhere h)

theorem Reads.absent : Reads b 0 .begun (Pure.pure none : Parse Slot) (Pure.pure none) :=
  fun _ ordered fits => ⟨rfl, .begin ordered fits⟩

theorem Reads.unlisted : Reads b 0 .begun (Pure.pure none : Parse (Option NodeList))
    (Pure.pure none) :=
  fun _ ordered fits => ⟨rfl, .begin ordered fits⟩

theorem ReadsAt.map {g : α → β} (same : ∀ x, refs (g x) = refs x) (h : ReadsAt b r a t p p') :
    ReadsAt b r a t (g <$> p) (g <$> p') := by
  intro s there ordered fits
  obtain ⟨same', read⟩ := h s there ordered fits
  have value : (g <$> p) s = (g (p s).1, (p s).2) := rfl
  have value' : (g <$> p') s = (g (p' s).1, (p' s).2) := rfl
  rw [value, value', ← same', same]
  exact ⟨rfl, read⟩

theorem Reads.map {g : α → β} (same : ∀ x, refs (g x) = refs x) (h : Reads b r a p p') :
    Reads b r a (g <$> p) (g <$> p') :=
  .at fun _ => .map same (.anywhere h)

theorem Reads.run (h : Reads none r a p p') {s : ParseState} (ordered : s.cursor.Ordered) :
    Run s (refs (p s).1) (p s).2 :=
  (h s ordered (by rintro c ⟨⟩)).2.run

/-! ### Parts -/

namespace Goes

theorem anywhere (h : Goes b r m none start held out p p') : Goes b r m known start held out p p' :=
  fun s₀ s place _ now => h s₀ s place (unknown s) now

/- What else is held, or known of the tokens taken, may be given up. -/
theorem weaken [m.Gives n] (h : Goes b r n known start used out p p') (fewer : used.Sublist held) : Goes b r m known start held out p p' :=
  fun s₀ s place there now => h s₀ s place there (now.less fewer)

theorem drop (h : Goes b r m known start used out p p') (fewer : used.Sublist held) :
    Goes b r m known start held out p p' :=
  weaken h fewer

theorem enough [mid.Gives out] (h : Goes b r m known start held mid p p') :
    Goes b r m known start held out p p' := by
  intro s₀ s place there now
  obtain ⟨same, after⟩ := h s₀ s place there now
  exact ⟨same, after.less (.refl _)⟩

theorem know (h : ∀ t, Goes b r m (some t) start held out p p') :
    Goes b r m none start held out p p' := by
  intro s₀ s place _ now
  refine h s.cursor.current s₀ s place ?_ now
  rintro t ⟨⟩
  rfl

theorem see {γ : Type} {p : Parse γ} {g : Token → γ} {f f' : γ → Parse β} (sees : Sees p g)
    (rest : Goes b r m (some t) start held out (f (g t)) (f' (g t))) :
    Goes b r m (some t) start held out (p >>= f) (p >>= f') := by
  intro s₀ s place there now
  obtain rfl := there t rfl
  rw [bindAt, bindAt, sees s]
  exact rest s₀ s place there now

/- A step that does nothing at the token at hand. -/
theorem skip {γ : Type} {p : Parse γ} {x : γ} {f f' : γ → Parse β}
    (settled : ∀ s, s.cursor.current = t → p s = (x, s))
    (rest : Goes b r m (some t) start held out (f x) (f' x)) :
    Goes b r m (some t) start held out (p >>= f) (p >>= f') := by
  intro s₀ s place there now
  rw [bindAt, bindAt, settled s (there t rfl)]
  exact rest s₀ s place there now

theorem state {f f' : ParseState → Parse β}
    (rest : ∀ s, Goes b r m known start held out (f s) (f' s)) :
    Goes b r m known start held out (get >>= f) (get >>= f') :=
  fun s₀ s place there now => rest s s₀ s place there now

theorem pure [m.Gives out] {x : α} (part : (refs x).Sublist held) :
    Goes b r m known start held out (Pure.pure x : Parse α) (Pure.pure x) :=
  fun _ _ _ _ now => ⟨rfl, now.less part⟩

theorem done [m.Gives out] [Quiet α] {x : α} :
    Goes b r m known start held out (Pure.pure x : Parse α) (Pure.pure x) :=
  pure (by rw [Quiet.nothing x]; exact List.nil_sublist _)

theorem absent [m.Gives out] :
    Goes b r m known start held out (Pure.pure none : Parse Slot) (Pure.pure none) :=
  pure (List.nil_sublist _)

theorem kept [m.Gives out] {x : α} :
    Goes b r m known start (refs x) out (Pure.pure x : Parse α) (Pure.pure x) :=
  pure (.refl _)

theorem finished [m.Gives out] {x : α} :
    Goes b r m known start (refs x) out (Pure.pure (.done x) : Parse (ForInStep α))
      (Pure.pure (.done x)) :=
  pure (.refl _)

theorem yielded [m.Gives out] {x : α} :
    Goes b r m known start (refs x) out (Pure.pure (.yield x) : Parse (ForInStep α))
      (Pure.pure (.yield x)) :=
  pure (.refl _)

theorem nextAt [Within r' (m.room r)] (first : ReadsAt b r' a t p p')
    (rest : ∀ x, Goes b r (m.and a) none start (held ++ refs x) out (f x) (f' x)) :
    Goes b r m (some t) start held out (p >>= f) (p' >>= f') := by
  intro s₀ s place there now
  obtain ⟨same, read⟩ := first s (there t rfl) now.still now.room.fewer
  obtain ⟨same', after⟩ := rest (p s).1 s₀ (p s).2 place (unknown _) (now.and read)
  exact ⟨bindSame same same', after⟩

theorem next [Within r' (m.room r)] (first : Reads b r' a p p')
    (rest : ∀ x, Goes b r (m.and a) none start (held ++ refs x) out (f x) (f' x)) :
    Goes b r m known start held out (p >>= f) (p' >>= f') :=
  anywhere (know fun _ => nextAt (.anywhere first) rest)

theorem first [Within r' (m.room r)] (h : Reads b r' a p p')
    (rest : ∀ x, Goes b r (m.and a) none start (refs x) out (f x) (f' x)) :
    Goes b r m known start [] out (p >>= f) (p' >>= f') :=
  next h rest

theorem firstAt [Within r' (m.room r)] (h : ReadsAt b r' a t p p')
    (rest : ∀ x, Goes b r (m.and a) none start (refs x) out (f x) (f' x)) :
    Goes b r m (some t) start [] out (p >>= f) (p' >>= f') :=
  nextAt h rest

/- A step that uses all that is held. -/
theorem last (h : Goes b r m known start held mid p p')
    (rest : ∀ x, Goes b r mid none start (refs x) out (f x) (f' x)) :
    Goes b r m known start held out (p >>= f) (p' >>= f') := by
  intro s₀ s place there now
  obtain ⟨same, read⟩ := h s₀ s place there now
  obtain ⟨same', after⟩ := rest (p s).1 s₀ (p s).2 place (unknown _) read
  exact ⟨bindSame same same', after⟩

/- A node is made of all that is held. -/
theorem build (h : Goes b r m known start held m p p')
    (rest : ∀ x, Goes b r m none start (refs x) out (f x) (f' x)) :
    Goes b r m known start held out (p >>= f) (p' >>= f') :=
  last h rest

/- A step whose answer names no nodes. -/
theorem passAt [Within r' (m.room r)] [Quiet α] (first : ReadsAt b r' a t p p')
    (rest : ∀ x, Goes b r (m.and a) none start held out (f x) (f' x)) :
    Goes b r m (some t) start held out (p >>= f) (p' >>= f') := by
  refine nextAt first fun x => ?_
  rw [Quiet.nothing x, List.append_nil]
  exact rest x

theorem pass [Within r' (m.room r)] [Quiet α] (first : Reads b r' a p p')
    (rest : ∀ x, Goes b r (m.and a) none start held out (f x) (f' x)) :
    Goes b r m known start held out (p >>= f) (p' >>= f') :=
  anywhere (know fun _ => passAt (.anywhere first) rest)

/- The same where something is known of the answer. -/
theorem passSuch [Within r' (m.room r)] [Quiet α] {Q : α → Prop} (first : Reads b r' a p p')
    (such : ∀ s, Q (p s).1) (rest : ∀ x, Q x → Goes b r (m.and a) none start held out (f x) (f' x)) :
    Goes b r m known start held out (p >>= f) (p' >>= f') := by
  intro s₀ s place _ now
  obtain ⟨same, read⟩ := first s now.still now.room.fewer
  have later := now.and read
  rw [Quiet.nothing, List.append_nil] at later
  obtain ⟨same', after⟩ := rest (p s).1 (such s) s₀ (p s).2 place (unknown _) later
  exact ⟨bindSame same same', after⟩

/- The last step of a construct. -/
theorem endsAt [Within r' (m.room r)] [(m.and a).Gives out] (first : ReadsAt b r' a t p p') :
    Goes b r m (some t) start [] out p p' := by
  intro s₀ s place there now
  obtain ⟨same, read⟩ := first s (there t rfl) now.still now.room.fewer
  exact ⟨same, (now.and read).less (.refl _)⟩

theorem ends [Within r' (m.room r)] [(m.and a).Gives out] (first : Reads b r' a p p') :
    Goes b r m known start [] out p p' :=
  anywhere (know fun _ => endsAt (.anywhere first))

theorem branch {c : Prop} [Decidable c] (yes : c → Goes b r m known start held out p p')
    (no : ¬ c → Goes b r m known start held out q q') :
    Goes b r m known start held out (if c then p else q) (if c then p' else q') := by
  split
  · exact yes ‹c›
  · exact no ‹¬ c›

/- Branches that go on in the same way. -/
theorem fork [Within r' (m.room r)] {c : Prop} [Decidable c] (yes : c → Reads b r' a p p') (no : ¬ c → Reads b r' a q q')
    (rest : ∀ x, Goes b r (m.and a) none start (held ++ refs x) out (f x) (f' x)) :
    Goes b r m known start held out (if c then p >>= f else q >>= f)
      (if c then p' >>= f' else q' >>= f') :=
  branch (fun h => next (yes h) rest) fun h => next (no h) rest

theorem perhaps [Within r' (m.room r)] {c : Prop} [Decidable c] {p p' : Parse Unit}
    {f f' : Unit → Parse β} (yes : Reads b r' a p p')
    (rest : Goes b r m none start held out (f ()) (f' ())) :
    Goes b r m known start held out (if c then p >>= f else f ()) (if c then p' >>= f' else f' ()) :=
  have : (m.and a).Gives m := ⟨by cases m <;> cases a <;> rfl⟩
  branch (fun _ => pass yes fun _ => weaken rest (.refl _)) fun _ => rest.anywhere

theorem repeated {step step' : σ → Parse (ForInStep σ)}
    (h : ∀ x, Goes b r m none start (refs x) m (step x) (step' x)) (rounds : List Token) (x : σ) :
    Goes b r m none start (refs x) m (repeatOver step rounds x) (repeatOver step' rounds x) := by
  induction rounds generalizing x with
  | nil =>
    refine last (h x) fun next => ?_
    cases next <;> exact kept
  | cons t rest ih =>
    refine last (h x) fun next => ?_
    cases next with
    | done y => exact kept
    | yield y => exact ih y

theorem loop {step step' : σ → Parse (ForInStep σ)} {x : σ}
    (h : ∀ x, Goes b r m none start (refs x) m (step x) (step' x)) :
    Goes b r m known start (refs x) m (Parse.loop step x) (Parse.loop step' x) :=
  fun s₀ s place _ now => repeated h s.cursor.upcoming x s₀ s place (unknown s) now

/- A loop whose first round takes a token. -/
theorem loopTaking {step step' : σ → Parse (ForInStep σ)} {x : σ}
    (first : Goes b r m (some t) start (refs x) .moved (step x) (step' x))
    (h : ∀ x, Goes b r .moved none start (refs x) .moved (step x) (step' x)) :
    Goes b r m (some t) start (refs x) .moved (Parse.loop step x) (Parse.loop step' x) := by
  intro s₀ s place there now
  have all (rounds : List Token) : Goes b r m (some t) start (refs x) .moved
      (repeatOver step rounds x) (repeatOver step' rounds x) := by
    cases rounds with
    | nil =>
      refine last first fun next => ?_
      cases next <;> exact kept
    | cons _ rest =>
      refine last first fun next => ?_
      cases next with
      | done y => exact kept
      | yield y => exact repeated h rest y
  exact all s.cursor.upcoming s₀ s place there now

/- Something read one level deeper. -/
theorem nest [Within r' (m.room r)] {no no' : Parse β} (inner : Reads b r' a p p')
    (rest : ∀ x, Goes b r (m.and a) none start (held ++ refs x) out (f x) (f' x))
    (refused : Goes b r m known start held out (reportHere .nestedTooDeeply >>= fun _ => no)
      (reportHere .nestedTooDeeply >>= fun _ => no')) :
    Goes b r m known start held out
      (do
        if ← enter then
          let x ← p
          leave
          f x
        else no)
      (do
        if ← enter then
          let x ← p'
          leave
          f' x
        else no') := by
  intro s₀ s place there now
  rw [bindAt, bindAt]
  by_cases room : s.depth < maxNesting
  · rw [enterRoom room]
    obtain ⟨same, read⟩ := inner { s with depth := s.depth + 1 } now.still now.room.fewer
    obtain ⟨ts, _, course, made⟩ := read.course
    obtain ⟨same', after⟩ := rest _ s₀ { (p _).2 with depth := (p _).2.depth - 1 } place (unknown _)
      (now.chain (.nest room course) made)
    refine ⟨bindSame same ?_, after⟩
    exact same'
  · rw [enterFull (Nat.not_lt.mp room)]
    exact refused s₀ s place there now

theorem advance {f f' : Unit → Parse β} (more : t.isEnd = false)
    (rest : Goes b r .moved none start held out (f ()) (f' ())) :
    Goes b r m (some t) start held out (Parse.advance >>= f) (Parse.advance >>= f') := by
  intro s₀ s place there now
  obtain rfl := there t rfl
  exact rest s₀ _ place (unknown _) (now.take more)

theorem report {f f' : Unit → Parse β} {fault : SyntaxFault}
    (rest : Goes b r (m.and .tried) known start held out (f ()) (f' ())) :
    Goes b r m known start held out (reportHere fault >>= f) (reportHere fault >>= f') := by
  intro s₀ s place there now
  have fails := reportFails now.still fault
  have after := now.chain (a := .tried) (.report s fault) fun _ clean => absurd clean fails
  rw [List.append_nil] at after
  refine rest s₀ _ place (fun t member => ?_) after
  have same := (List.cons.inj (reportAhead s fault)).1
  exact same.trans (there t member)

/- A token that is at hand is taken. -/
theorem takes {k : TokenKind} [k.Proper] {f f' : Unit → Parse β} (there : t.kind = k)
    (rest : Goes b r .moved none start held out (f ()) (f' ())) :
    Goes b r m (some t) start held out (expect k >>= f) (expect k >>= f') := by
  intro s₀ s place here now
  obtain rfl := here t rfl
  rw [bindAt, bindAt, expectThere there]
  exact rest s₀ _ place (unknown _) (now.take (moreThere there))

theorem accept {k : TokenKind} [k.Proper] (yes : Goes b r .moved none start held out p p')
    (no : Goes b r m known start held out q q') :
    Goes b r m known start held out (Parse.accept k >>= fun there => if there then p else q)
      (Parse.accept k >>= fun there => if there then p' else q') := by
  intro s₀ s place here now
  rw [bindAt, bindAt]
  by_cases there : s.cursor.current.kind = k
  · rw [acceptThere there]
    exact yes s₀ _ place (unknown _) (now.take (moreThere there))
  · rw [acceptElse there]
    exact no s₀ s place here now

/- A part either takes tokens or leaves the token at hand. -/
theorem either [Within r' (m.room r)] (first : Reads b r' a p p')
    (moved : ∀ x u, t.start < u.start →
      Goes b r .moved (some u) start (held ++ refs x) out (f x) (f' x))
    (still : ∀ x, Goes b r (m.and a) (some t) start (held ++ refs x) out (f x) (f' x)) :
    Goes b r m (some t) start held out (p >>= f) (p' >>= f') := by
  intro s₀ s place there now
  obtain rfl := there t rfl
  obtain ⟨same, read⟩ := first s now.still now.room.fewer
  obtain ⟨ts, looks, course, made⟩ := read.course
  have trace := courseTrace course
  cases ts with
  | nil =>
    obtain ⟨same', after⟩ := still (p s).1 s₀ (p s).2 place (by
      rintro t ⟨⟩
      exact traceStill trace now.still) (now.and read)
    exact ⟨bindSame same same', after⟩
  | cons u us =>
    have taken := (tracePlace trace now.still).2 (List.cons_ne_nil u us)
    have made' : Progress.moved.Made b.isSome (u :: us) (p s).2.cursor.errors :=
      List.cons_ne_nil u us
    have later := now.chain course made'
    have all : m.and .moved = .moved := by cases m <;> rfl
    rw [all] at later
    obtain ⟨same', after⟩ := moved (p s).1 (p s).2.cursor.current taken s₀ (p s).2 place (by
      rintro t ⟨⟩
      rfl) later
    exact ⟨bindSame same same', after⟩

end Goes

/-! ### Repetition and nesting -/

section
variable {γ : Type} {step : γ → Parse (ForInStep γ)} {x y : γ} {s s' : ParseState}

theorem repeatStops (stops : step x s = (.done y, s')) (rounds : List Token) :
    repeatOver step rounds x s = (y, s') := by
  cases rounds <;> rw [repeatOver, bindAt, stops] <;> rfl

theorem repeatGoes (goes : step x s = (.yield y, s')) (t : Token) (rounds : List Token) :
    repeatOver step (t :: rounds) x s = repeatOver step rounds y s' := by
  rw [repeatOver, bindAt, goes]

theorem loopStops (stops : step x s = (.done y, s')) : loop step x s = (y, s') :=
  repeatStops stops s.cursor.upcoming

/- What every round keeps holds of the answer of a loop. -/
theorem loopAnswers {Q : γ → Prop} (round : ∀ x, Q x → ∀ s, Q (step x s).1.value) {x : γ} (begins : Q x)
    (s : ParseState) : Q (loop step x s).1 := by
  have rounds (ts : List Token) (x : γ) (s : ParseState) (begins : Q x) :
      Q (repeatOver step ts x s).1 := by
    induction ts generalizing x s with
    | nil =>
      have after := round x begins s
      rw [repeatOver, bindAt]
      cases answer : (step x s).1 with
      | done y | yield y =>
        rw [answer] at after
        exact after
    | cons t ts ih =>
      have after := round x begins s
      rw [repeatOver, bindAt]
      cases answer : (step x s).1 with
      | done y =>
        rw [answer] at after
        exact after
      | yield y =>
        rw [answer] at after
        exact ih y _ after
  exact rounds s.cursor.upcoming x s begins

end

theorem Reads.collect {step step' : List Slot → Parse (ForInStep (List Slot))}
    (h : ∀ start x, Goes b r .begun none start (refs x) .begun (step x) (step' x)) :
    Reads b r .begun (Parse.loop step []) (Parse.loop step' []) :=
  .plain fun t => Goes.loop (x := []) (h t.start)

/- Going round without holding nodes. -/
theorem Reads.still [Quiet σ] {step step' : σ → Parse (ForInStep σ)} {x : σ}
    (h : ∀ x, Reads b r .begun (step x) (step' x)) :
    Reads b r .begun (Parse.loop step x) (Parse.loop step' x) := by
  refine .plain fun t => ?_
  have held : Goes b r .begun (some t) t.start (refs x) .begun (Parse.loop step x)
      (Parse.loop step' x) := .loop fun y => by
    rw [Quiet.nothing y]
    exact .ends (h y)
  rwa [Quiet.nothing x] at held

theorem readsNested (no : Reads b r a (reportHere .nestedTooDeeply >>= fun _ => q)
    (reportHere .nestedTooDeeply >>= fun _ => q')) (yes : Reads b r a p p') :
    Reads b r a (nested q p) (nested q' p') := by
  have : (Progress.begun.and a).Gives a := ⟨by cases a <;> rfl⟩
  exact .plain fun _ => .nest yes (fun _ => .kept) (.ends no)

/-! ### Looking -/

theorem seesToken : Sees token fun t => t := fun _ => rfl
theorem seesKind : Sees kind (·.kind) := fun _ => rfl
theorem seesHere : Sees here (·.start) := fun _ => rfl
theorem seesAfterLineBreak : Sees afterLineBreak (·.afterLineBreak) := fun _ => rfl
theorem seesIsAt (k : TokenKind) : Sees (isAt k) (·.kind == k) := fun _ => rfl

theorem seesContextual (word : String) :
    Sees (isContextual word) fun t => t.kind == .identifier && t.value == word := fun _ => rfl

theorem seesCanEnd : Sees canEndStatement fun t =>
    t.kind == .punct .semicolon || t.kind == .punct .closeBrace || t.isEnd || t.afterLineBreak :=
  fun _ => rfl

theorem Sees.reads [Quiet α] {g : Token → α} (sees : Sees p g) : Reads b 0 .begun p p := by
  intro s ordered fits
  rw [sees s]
  exact ⟨rfl, (Held.begin ordered fits).less (by rw [Quiet.nothing])⟩

theorem Goes.peek {γ : Type} {Q : γ → Prop} {p : Parse γ} {f f' : γ → Parse β} (h : Peeks b t Q p)
    (rest : ∀ x, Q x → Goes b r m (some t) start held out (f x) (f' x)) :
    Goes b r m (some t) start held out (p >>= f) (p >>= f') := by
  intro s₀ s place there now
  obtain ⟨⟨_, course⟩, same, result⟩ := h s (there t rfl) now.still now.room.fewer
  refine rest (p s).1 result s₀ (p s).2 place ?_ (now.quiet course)
  rw [same]
  exact there

/-! ### Tokens -/

theorem readsAccept (k : TokenKind) [k.Proper] :
    Reads b 0 .begun (accept k) (accept k) := by
  intro s ordered fits
  by_cases there : s.cursor.current.kind = k
  · rw [acceptThere there]
    exact ⟨rfl, ((Held.begin ordered fits).take (moreThere there)).less (.refl _)⟩
  · rw [acceptElse there]
    exact ⟨rfl, .begin ordered fits⟩

theorem readsExpect (k : TokenKind) [k.Proper] :
    Reads b 0 .tried (expect k) (expect k) := by
  intro s ordered fits
  by_cases there : s.cursor.current.kind = k
  · rw [expectThere there]
    exact ⟨rfl, ((Held.begin ordered fits).take (moreThere there)).less (.refl _)⟩
  · rw [expectElse there]
    exact ⟨rfl, ordered, fits, [], [], .report s _,
      fun _ clean => absurd clean (reportFails ordered _)⟩

theorem readsEndStatement : Reads b 0 .begun endStatement endStatement :=
  .plain fun _ => .accept .done (.see seesCanEnd (.branch (fun _ => .done) fun _ =>
    .ends (readsExpect _)))

theorem readsPrevStop : Reads b 0 .begun prevStop prevStop :=
  fun _ ordered fits => ⟨rfl, .begin ordered fits⟩

theorem readsInForbidden (forbidden : Bool) (h : Reads b r a p p') :
    Reads b r a (withInForbidden forbidden p) (withInForbidden forbidden p') := by
  intro s ordered fits
  obtain ⟨same, read⟩ := h { s with inForbidden := forbidden } ordered fits
  obtain ⟨ts, looks, course, made⟩ := read.course
  have value (q : Parse α) : withInForbidden forbidden q s =
      ((q { s with inForbidden := forbidden }).1,
        { (q { s with inForbidden := forbidden }).2 with inForbidden := s.inForbidden }) := rfl
  rw [value, value, ← same]
  exact ⟨rfl, ordered, fits, ts, looks, .within forbidden course, made⟩

/-! ### Nodes -/

theorem agreesHolding {kind : NodeKind} {p : Payload} (form : kind.form? = some p.form)
    (start stop : Nat) : (Node.holding kind start stop p).Agrees := by
  intro q own
  cases own
  exact form

/- A node that ends with the token taken last. -/
theorem goesAdd [m.Gives .tried] [m.Gives out] {n : Nat → Node} (inner : ∀ x, (n x).Inner)
    (root : ∀ x, (n x).parent? = none)
    (place : ∀ x, (n x).start = start) (kids : ∀ x, (n x).kids = held)
    (links : ∀ x, (n x).links.Perm held) (stop : ∀ x, start ≤ x → (n x).stop = x)
    (moves : ∀ x, (n x).kind.takesToken = true → m = .moved) (real : ∀ x, (n x).isMissing = false) :
    Goes b r m known start held out (prevStop >>= fun x => addNode (n x))
      (prevStop >>= fun x => addNode (n x)) := by
  intro s₀ s begun _ now
  obtain ⟨ts, looks, course, made⟩ := now.course
  refine ⟨rfl, now.ordered, now.fits, ts, looks, .node course (inner _) (root _)
    ((place _).trans begun.symm) (kids _) (links _) (fun own => ?_) (fun some => ?_)
    (Progress.madeGives made : Progress.tried.Made _ _ _)
    (fun hole => Bool.noConfusion ((real _).symm.trans hole)), Progress.madeGives made⟩
  · rw [moves _ own] at made
    exact made
  · exact stop _ (begun ▸ Nat.le_of_lt ((traceStop (courseTrace course) now.ordered).2 some))

theorem goesFinish [m.Gives .tried] [m.Gives out] {kind : NodeKind} {p : Payload}
    (form : kind.form? = some p.form) (plain : kind.isPlain = true) (order : p.links = held) :
    Goes b r m known start held out (finish kind start p) (finish kind start p) :=
  have ⟨takes, inside, ordered⟩ := plainKind plain
  goesAdd (fun _ => ⟨agreesHolding form _ _, inside⟩) (fun _ => rfl) (fun _ => rfl)
    (fun _ => (p.childrenLinked ordered).trans order) (fun _ => .of_eq order) (fun _ _ => rfl)
    (fun _ own => Bool.noConfusion (takes.symm.trans own)) (fun _ => NodeFlags.realNone)

/- A node behind a token may be of any kind. -/
theorem goesFinishTaken [Progress.moved.Gives out] {kind : NodeKind} {p : Payload}
    (form : kind.form? = some p.form) (inside : kind ≠ .sourceFile) (ordered : kind ≠ .doStatement)
    (order : p.links = held) :
    Goes b r .moved known start held out (finish kind start p) (finish kind start p) :=
  goesAdd (fun _ => ⟨agreesHolding form _ _, inside⟩) (fun _ => rfl) (fun _ => rfl)
    (fun _ => (p.childrenLinked ordered).trans order) (fun _ => .of_eq order) (fun _ _ => rfl) (fun _ _ => rfl)
    (fun _ => NodeFlags.realNone)

theorem goesFinishCall [Progress.moved.Gives out] {kind : NodeKind} {c : Call} (form : kind.form? = some .call)
    (order : (Payload.call c).links = held) :
    Goes b r .moved known start held out (finish kind start (.call c)) (finish kind start (.call c)) := by
  have inside : kind ≠ .sourceFile := by
    rintro rfl
    cases form
  have ordered : kind ≠ .doStatement := by
    rintro rfl
    cases form
  exact goesFinishTaken form inside ordered order

/- A node that is the token at hand. -/
theorem goesTokenNode {n : Node} (more : t.isEnd = false) (inner : n.Inner)
    (root : n.parent? = none) (links : n.links = []) (kids : n.kids = []) (plain : n.kind.takesToken = false)
    (begins : n.start = t.start) (stops : n.stop = t.stop) (real : n.isMissing = false) :
    ReadsAt b 0 .moved t (Parse.advance >>= fun _ => addNode n) (Parse.advance >>= fun _ => addNode n) := by
  rintro s rfl ordered fits
  refine ⟨rfl, ordered, fits, [s.cursor.current], [], ?_, List.cons_ne_nil _ _⟩
  refine .node (.take more) inner root begins kids (.of_eq links)
    (fun own => Bool.noConfusion (plain.symm.trans own)) (fun _ => ?_)
    (fun _ _ => List.cons_ne_nil _ _) fun hole => Bool.noConfusion (real.symm.trans hole)
  show _ = s.cursor.next.prevStop
  rw [stops]
  unfold Cursor.next
  split <;> rfl

/- What is missing is reported first. -/
theorem readsMissing (fault : SyntaxFault) : Reads b 0 .tried (reportHere fault >>= fun _ => missing)
    (reportHere fault >>= fun _ => missing) := by
  intro s ordered fits
  have fails := reportFails ordered fault
  have same := (List.cons.inj (reportAhead s fault)).1
  refine ⟨rfl, ordered, fits, [], [], ?_, fun _ clean => absurd clean fails⟩
  let after := (reportHere fault s).2
  let place := after.cursor.current.start
  let node := { Node.holding (.token .identifier) place place (.identifier "") with
    flags := .missing }
  have inner : node.Inner := ⟨agreesHolding rfl place place, nofun⟩
  refine .node (.report s fault) inner rfl (congrArg (·.start) same) rfl (.refl _)
    (fun own => by cases own) (fun some => absurd rfl some) (fun _ clean => absurd clean fails) fun _ => ?_
  exact (reportMarks s fault).trans (congrArg (fun t : Token => some t.start) same.symm)

theorem readsAddFlags (s : Slot) {flags : NodeFlags} (real : flags.Real) :
    Reads b 0 .begun (addFlags s flags) (addFlags s flags) := by
  cases s with
  | none => exact .plain fun _ => .done
  | some i => exact fun s ordered fits => ⟨rfl, (Held.begin ordered fits).quiet (.flags s i real)⟩

/- A node of which marks are known. -/
theorem goesMarked [m.Gives .tried] {kind : NodeKind} {p : Payload} {flags : NodeFlags}
    (form : kind.form? = some p.form) (plain : kind.isPlain = true) (order : p.links = held) (real : flags.Real) :
    Goes b r m known start held m
      (do
        let node ← finish kind start p
        addFlags node flags
        return node)
      (do
        let node ← finish kind start p
        addFlags node flags
        return node) := by
  have : (m.and .begun).Gives m := ⟨by cases m <;> rfl⟩
  exact .build (goesFinish form plain order) fun _ =>
    .pass (readsAddFlags _ real) fun _ => .kept

theorem goesRow [m.Gives out] (items : List Slot) (listStart : Nat) :
    Goes b r m known start (refs items) out (listFrom listStart items.reverse)
      (listFrom listStart items.reverse) :=
  have : (m.and .begun).Gives out := by cases m <;> assumption
  .pass readsPrevStop fun _ => .pure (.refl _)

/- An element that is left out, and the comma behind it. -/
theorem goesHole {f f' : Slot → Parse β} (more : t.isEnd = false)
    (rest : ∀ x, Goes b r .moved none start (held ++ refs x) out (f x) (f' x)) :
    Goes b r m (some t) start held out
      (do
        let pos ← here
        let hole ← addNode (.bare .omittedExpression pos pos)
        advance
        f hole)
      (do
        let pos ← here
        let hole ← addNode (.bare .omittedExpression pos pos)
        advance
        f' hole) := by
  intro s₀ s place there now
  obtain rfl := there t rfl
  have made : Progress.moved.Made b.isSome [s.cursor.current] s.cursor.next.errors :=
    List.cons_ne_nil _ _
  have after := now.chain (.hole more) made
  have all : m.and .moved = .moved := by cases m <;> rfl
  rw [all] at after
  exact rest (some s.tree.size) s₀ _ place (unknown _) after

/- The node that was made is drawn out to the token taken last. -/
theorem goesStretch [m.Gives out] {x : Slot} :
    Goes b r m known start (refs x) out (stretch x >>= fun _ => Pure.pure x)
      (stretch x >>= fun _ => Pure.pure x) := by
  intro s₀ s place _ now
  cases x with
  | none => exact ⟨rfl, now.less (.refl _)⟩
  | some i =>
    obtain ⟨ts, looks, course, made⟩ := now.course
    exact ⟨rfl, now.ordered, now.fits, ts, looks, .stretch course, Progress.madeGives made⟩

end
end Parse
end CallGuard
