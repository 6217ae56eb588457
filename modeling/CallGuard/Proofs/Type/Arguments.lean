import CallGuard.Proofs.Parser.Consumption

/-! Type arguments are looked for before they are read. The look-ahead counts `<` and `>` alone and gives up
at some tokens; the reader counts brackets of all kinds alike and knows where a type ends. Between brackets
that are closed by their own kind both come to the same `>`, unless the reader meets a fault before it. -/
namespace CallGuard
namespace Parse

/-! ### Looking ahead -/

def countOf (p : Punctuator) (ts : List Token) : Nat := ts.countP (·.kind == .punct p)

theorem countOfCons (p : Punctuator) (t : Token) (ts : List Token) :
    countOf p (t :: ts) = countOf p [t] + countOf p ts := by
  show countOf p ([t] ++ ts) = _
  exact List.countP_append

/- With so many `<` open the next `>` closes the first one of them, and none before does. -/
structure Angled (depth : Nat) (front : List Token) : Prop where
  passed : ∀ t ∈ front, endsTypeArguments t.kind = false
  within : ∀ p, p <+: front → countOf .greater p < depth + countOf .less p
  level : depth + countOf .less front = countOf .greater front + 1

theorem angledCons {d d' : Nat} {t : Token} {ts : List Token} (pos : 0 < d)
    (plain : endsTypeArguments t.kind = false)
    (steady : d' + countOf .greater [t] = d + countOf .less [t]) :
    Angled d (t :: ts) ↔ Angled d' ts := by
  have less := countOfCons .less t
  have greater := countOfCons .greater t
  constructor
  · rintro ⟨passed, within, level⟩
    refine ⟨fun u member => passed u (List.mem_cons_of_mem t member), fun p part => ?_, ?_⟩
    · have inside := within (t :: p) (List.prefix_cons_inj t |>.mpr part)
      rw [less, greater] at inside
      omega
    · rw [less, greater] at level
      omega
  · rintro ⟨passed, within, level⟩
    refine ⟨List.forall_mem_cons.mpr ⟨plain, passed⟩, fun p part => ?_, ?_⟩
    · rcases List.prefix_cons_iff.mp part with rfl | ⟨q, rfl, more⟩
      · exact pos
      · have inside := within q more
        rw [less, greater]
        omega
    · rw [less, greater]
      omega

/- The `>` that closes the first of so many `<` stands right in front of the rest. -/
def ClosedBefore (depth : Nat) (rest ts : List Token) : Prop :=
  ∃ front close, ts = front ++ close :: rest ∧ close.kind = .punct .greater ∧ Angled depth front

variable {s : ParseState} {t : Token} {us rest : List Token} {d d' : Nat}

theorem closedNever (ends : endsTypeArguments t.kind = true) : ¬ ClosedBefore d rest (t :: us) := by
  rintro ⟨front, close, whole, closed, angled⟩
  cases front with
  | nil =>
    rw [(List.cons.inj whole).1, closed] at ends
    cases ends
  | cons u front =>
    rw [(List.cons.inj whole).1, angled.passed u List.mem_cons_self] at ends
    cases ends

theorem closedLast (greater : t.kind = .punct .greater) : ClosedBefore 1 rest (t :: us) ↔ us = rest := by
  constructor
  · rintro ⟨front, close, whole, closed, angled⟩
    cases front with
    | nil => exact (List.cons.inj whole).2
    | cons u front =>
      have inside := angled.within [u] ⟨front, rfl⟩
      rw [(List.cons.inj whole).1] at greater
      simp [countOf, greater] at inside
  · rintro rfl
    exact ⟨[], t, rfl, greater, nofun, fun p part => by simp [List.prefix_nil.mp part, countOf], rfl⟩

theorem closedLater (pos : 0 < d) (pos' : 0 < d') (passed : endsTypeArguments t.kind = false)
    (steady : d' + countOf .greater [t] = d + countOf .less [t]) :
    ClosedBefore d' rest us ↔ ClosedBefore d rest (t :: us) := by
  constructor
  · rintro ⟨front, close, rfl, closed, angled⟩
    exact ⟨t :: front, close, rfl, closed, (angledCons pos passed steady).mpr angled⟩
  · rintro ⟨front, close, whole, closed, angled⟩
    cases front with
    | nil =>
      have level := angled.level
      simp [countOf, (List.cons.inj whole).1, closed] at steady level
      omega
    | cons u front =>
      obtain ⟨rfl, behind⟩ := List.cons.inj whole
      exact ⟨front, close, behind, closed, (angledCons pos passed steady).mp angled⟩

theorem skipTypesAt (x : Nat × Bool) (s : ParseState) : skipTypesStep x s =
    let k := s.cursor.current.kind
    if endsTypeArguments k then (.done (x.1, false), s)
    else if k = .punct .less then (.yield (x.1 + 1, false), (advance s).2)
    else if k = .punct .greater then
      (if x.1 = 1 then .done (0, true) else .yield (x.1 - 1, false), (advance s).2)
    else (.yield (x.1, false), (advance s).2) := by
  unfold skipTypesStep
  simp only [bindAt, seesKind s]
  split
  · rfl
  · simp only [beq_iff_eq, bindAt]
    split
    · rfl
    · split
      · split <;> rfl
      · rfl

theorem skipLoop {b : Bool} (ordered : s.cursor.Ordered) (pos : 0 < d) :
    ((loop skipTypesStep (d, b) s).1.2 = true ∧ (loop skipTypesStep (d, b) s).2.cursor.ahead = rest) ↔
      ClosedBefore d rest s.cursor.ahead := by
  induction left : s.cursor.upcoming.length using Nat.strongRecOn generalizing s d b with
  | ind n ih =>
    rw [loopUnbounded turnsSkipTypes ordered, bindAt, skipTypesAt]
    dsimp only
    by_cases ends : endsTypeArguments s.cursor.current.kind = true
    · rw [if_pos ends]
      exact iff_of_false (fun yes => Bool.false_ne_true yes.1) (closedNever ends)
    · have passed := Bool.eq_false_iff.mpr ends
      have more : s.cursor.current.isEnd = false := skippedMore ends
      have fewer : (advance s).2.cursor.upcoming.length < n :=
        left ▸ Nat.lt_of_succ_le (Nat.le_of_eq (nextSpends ordered more))
      have further {d' : Nat} (pos' : 0 < d')
          (steady : d' + countOf .greater [s.cursor.current] = d + countOf .less [s.cursor.current]) :=
        (ih _ fewer (b := false) (nextOrdered ordered) pos' rfl).trans
          (closedLater pos pos' passed steady)
      rw [if_neg ends, takeAhead ordered more]
      by_cases less : s.cursor.current.kind = .punct .less
      · rw [if_pos less]
        exact further (Nat.succ_pos d) (by simp [countOf, less])
      · rw [if_neg less]
        by_cases greater : s.cursor.current.kind = .punct .greater
        · rw [if_pos greater]
          by_cases last : d = 1
          · subst last
            exact (and_iff_right rfl).trans (closedLast greater).symm
          · have pos' : 0 < d - 1 := by omega
            rw [if_neg last]
            exact further pos' (by simp [countOf, greater]; omega)
        · rw [if_neg greater]
          exact further pos (by simp [countOf, less, greater])

/- The look-ahead says yes exactly where a `>` closes the `<` at hand, and stops behind it. Parentheses
and square brackets in between do not count, wherever they were opened. -/
theorem skipExact (ordered : s.cursor.Ordered) (there : s.cursor.current.kind = .punct .less) :
    ((skipTypeArguments s).1 = true ∧ (skipTypeArguments s).2.cursor.ahead = rest) ↔
      ClosedBefore 1 rest s.cursor.next.ahead := by
  have first : loop skipTypesStep (0, false) s = loop skipTypesStep (1, false) (advance s).2 :=
    loopGoes turnsSkipTypes ordered (by rw [skipTypesAt, there]; rfl)
  have whole : skipTypeArguments s = ((loop skipTypesStep (1, false) (advance s).2).1.2,
      (loop skipTypesStep (1, false) (advance s).2).2) := by
    have found : isAt (.punct .less) s = (true, s) := Prod.ext (beq_iff_eq.mpr there) rfl
    rw [← first, skipTypeArguments, bindAt, found]
    rfl
  rw [whole]
  exact skipLoop (nextOrdered ordered) Nat.one_pos

/-! ### Brackets closed by their own kind -/

inductive BracketPair : Punctuator → Punctuator → Prop where
  | parens : BracketPair .openParen .closeParen
  | brackets : BracketPair .openBracket .closeBracket
  | angles : BracketPair .less .greater

def Unpaired (k : TokenKind) : Prop := ∀ p q, BracketPair p q → k ≠ .punct p ∧ k ≠ .punct q

/- The row closes the pending brackets, innermost first, and all that it opens. -/
inductive Matched : List Punctuator → List Token → Prop where
  | nil : Matched [] []
  | plain {pending t row} (passed : endsTypeArguments t.kind = false) (other : Unpaired t.kind)
      (more : Matched pending row) : Matched pending (t :: row)
  | opens {pending t row p q} (pair : BracketPair p q) (kind : t.kind = .punct p)
      (more : Matched (p :: pending) row) : Matched pending (t :: row)
  | closes {pending t row p q} (pair : BracketPair p q) (kind : t.kind = .punct q)
      (more : Matched pending row) : Matched (p :: pending) (t :: row)

theorem matchedMore {pending : List Punctuator} {t : Token} {row : List Token}
    (own : Matched pending (t :: row)) : t.isEnd = false := by
  cases own with
  | plain passed => exact skippedMore (ne_true_of_eq_false passed)
  | opens _ kind | closes _ kind => exact moreThere kind

theorem matchedAngled {pending : List Punctuator} {row : List Token} (own : Matched pending row) :
    Angled (1 + pending.count .less) row := by
  induction own with
  | nil => exact ⟨nofun, fun p part => by simp [List.prefix_nil.mp part, countOf], rfl⟩
  | plain passed other _ ih =>
    obtain ⟨less, greater⟩ := other _ _ .angles
    exact (angledCons (Nat.add_pos_left Nat.one_pos _) passed (by simp [countOf, less, greater])).mpr ih
  | opens pair kind _ ih =>
    refine (angledCons (Nat.add_pos_left Nat.one_pos _) ?_ ?_).mpr ih <;> cases pair <;>
      simp [countOf, kind, endsTypeArguments, Nat.add_assoc]
  | closes pair kind _ ih =>
    refine (angledCons (Nat.add_pos_left Nat.one_pos _) ?_ ?_).mpr ih <;> cases pair <;>
      simp [countOf, kind, endsTypeArguments, Nat.add_assoc]

/-! ### Reading types -/

theorem endsOpen {x : TypeScan} {t : Token} (some : x.pending ≠ []) (more : t.kind ≠ .endOfFile) :
    x.endsBefore t = false := by
  have top : x.pending.isEmpty = false := by simpa using some
  unfold TypeScan.endsBefore
  rw [top]
  split <;> first | exact absurd ‹_› more | rfl

theorem takeMatched {x : TypeScan} {t : Token} {row : List Token}
    (own : Matched x.pending (t :: row)) : Matched (x.take t).pending row := by
  unfold TypeScan.take
  generalize x.pending = pending at own
  cases own with
  | plain passed other more =>
    have brace {p : Punctuator} (kind : t.kind = .punct p) (ends : endsTypeArguments (.punct p) = true) :
        False := Bool.false_ne_true (passed.symm.trans (kind ▸ ends))
    dsimp only
    split
    · exact absurd ‹_› (other _ _ .parens).1
    · exact absurd ‹_› (other _ _ .brackets).1
    · exact (brace ‹_› rfl).elim
    · exact absurd ‹_› (other _ _ .angles).1
    · exact absurd ‹_› (other _ _ .parens).2
    · exact absurd ‹_› (other _ _ .brackets).2
    · exact (brace ‹_› rfl).elim
    · exact absurd ‹_› (other _ _ .angles).2
    · exact more
  | opens pair kind more =>
    cases pair <;> rw [kind] <;> exact more
  | closes pair kind more =>
    cases pair <;> rw [kind] <;> exact more

/- Reading has not come further than the end of the row, and no bracket of the row is open there. -/
def StandsIn (row tail : List Token) (s : ParseState) : Prop :=
  s.cursor.Ordered ∧ ∃ left, left <:+ row ∧ Matched [] left ∧ s.cursor.ahead = left ++ tail

/- Reading that leads from such states to such states. -/
def Preserves {α : Type} (P : ParseState → Prop) (p : Parse α) : Prop := ∀ s, P s → P (p s).2

namespace Preserves
variable {α β σ : Type} {P : ParseState → Prop} {p q : Parse α} {f : α → Parse β}

theorem next (first : Preserves P p) (rest : ∀ x, Preserves P (f x)) : Preserves P (p >>= f) :=
  fun s holds => rest _ _ (first s holds)

theorem same (still : ∀ s, (p s).2 = s) : Preserves P p := fun s holds => (still s).symm ▸ holds

theorem branch {c : Prop} [Decidable c] (yes : c → Preserves P p) (no : ¬ c → Preserves P q) :
    Preserves P (if c then p else q) := by
  split
  · exact yes ‹c›
  · exact no ‹¬ c›

theorem rounds {step : σ → Parse (ForInStep σ)} (round : ∀ x, Preserves P (step x)) (ts : List Token)
    (x : σ) : Preserves P (repeatOver step ts x) := by
  induction ts generalizing x with
  | nil => exact next (round x) fun r => by cases r <;> exact same fun _ => rfl
  | cons t ts ih =>
    refine next (round x) fun r => ?_
    cases r with
    | done y => exact same fun _ => rfl
    | yield y => exact ih y

theorem loop {step : σ → Parse (ForInStep σ)} (round : ∀ x, Preserves P (step x)) (x : σ) :
    Preserves P (Parse.loop step x) := fun s holds => rounds round s.cursor.upcoming x s holds

end Preserves

section
variable {row : List Token} {close : Token}

theorem standsSame {tail : List Token} {s' : ParseState} (inside : StandsIn row tail s)
    (same : s'.cursor = s.cursor) : StandsIn row tail s' := by
  unfold StandsIn
  rw [same]
  exact inside

theorem reportStands (s : ParseState) (fault : SyntaxFault) :
    (reportHere fault s).2.cursor.lastErrorAt = some (reportHere fault s).2.cursor.current.start :=
  (reportMarks s fault).trans (congrArg (some ·.start) (List.cons.inj (reportAhead s fault)).1.symm)

theorem standsReport (fault : SyntaxFault) : Preserves (StandsIn row (close :: rest)) (reportHere fault) := by
  rintro s ⟨ordered, left, part, own, ahead⟩
  exact ⟨reportOrdered ordered _ _ _, left, part, own, (reportAhead s fault).trans ahead⟩

theorem typeStepAt (x : TypeScan) (s : ParseState) : typeStep x s =
    if x.endsBefore s.cursor.current then (.done x, s)
    else (.yield (x.take s.cursor.current), (advance s).2) := by
  unfold typeStep
  rw [bindAt, seesToken s]
  split <;> rfl

variable (closed : close.kind = .punct .greater)
include closed

/- A type ends at the end of the row at the latest. -/
theorem typeLoop {x : TypeScan} {left : List Token} (part : left <:+ row)
    (own : Matched x.pending left) (ordered : s.cursor.Ordered)
    (ahead : s.cursor.ahead = left ++ close :: rest) :
    StandsIn row (close :: rest) (loop typeStep x s).2 := by
  induction left generalizing x s with
  | nil =>
    have top : x.pending = [] := by
      generalize x.pending = pending at own
      cases own
      rfl
    have here : s.cursor.current = close := (List.cons.inj ahead).1
    have ends : x.endsBefore s.cursor.current = true := by
      rw [TypeScan.endsBefore, here, closed, top]
      rfl
    have stops : typeStep x s = (.done x, s) := by rw [typeStepAt, if_pos ends]
    rw [loopStops stops]
    exact ⟨ordered, [], part, .nil, ahead⟩
  | cons t left ih =>
    have here : s.cursor.current = t := (List.cons.inj ahead).1
    have more := matchedMore own
    by_cases ends : x.endsBefore s.cursor.current = true
    · have top : x.pending = [] := by
        by_contra some
        rw [here, endsOpen some (beq_eq_false_iff_ne.mp more)] at ends
        cases ends
      have stops : typeStep x s = (.done x, s) := by rw [typeStepAt, if_pos ends]
      rw [loopStops stops]
      exact ⟨ordered, t :: left, part, top ▸ own, ahead⟩
    · rw [loopGoes turnsType ordered ((typeStepAt x s).trans (if_neg ends))]
      refine ih ((List.suffix_cons t left).trans part) (here ▸ takeMatched own) (nextOrdered ordered) ?_
      exact (List.cons.inj ((takeAhead ordered (here ▸ more)).symm.trans ahead)).2

theorem standsAdvance (inside : StandsIn row (close :: rest) s) (other : Unpaired s.cursor.current.kind) :
    StandsIn row (close :: rest) (advance s).2 := by
  obtain ⟨ordered, left, part, own, ahead⟩ := inside
  cases left with
  | nil =>
    rw [(List.cons.inj ahead).1] at other
    exact absurd closed (other _ _ .angles).2
  | cons t left =>
    have here : s.cursor.current = t := (List.cons.inj ahead).1
    have more := matchedMore own
    have behind := (List.cons.inj ((takeAhead ordered (here ▸ more)).symm.trans ahead)).2
    cases own with
    | plain _ _ own => exact ⟨nextOrdered ordered, left, (List.suffix_cons t left).trans part, own, behind⟩
    | opens pair kind => exact absurd (here ▸ kind) (other _ _ pair).1

theorem standsAccept {k : TokenKind} (other : Unpaired k) :
    Preserves (StandsIn row (close :: rest)) (accept k) := by
  intro s inside
  by_cases there : s.cursor.current.kind = k
  · rw [acceptThere there]
    exact standsAdvance closed inside (there ▸ other)
  · rw [acceptElse there]
    exact inside

theorem standsDotted (head : String) : Preserves (StandsIn row (close :: rest)) (dottedStep head) := by
  intro s inside
  unfold dottedStep
  rw [bindAt, dottedLooks]
  cases dotted : s.cursor.current.kind == .punct .dot && s.cursor.next.current.kind == .identifier with
  | false => exact inside
  | true =>
    obtain ⟨dot, name⟩ := Bool.and_eq_true_iff.mp dotted
    have first := standsAdvance closed inside (by
      rw [beq_iff_eq.mp dot]
      rintro _ _ ⟨⟩ <;> decide)
    refine standsAdvance (s := (advance s).2) closed first ?_
    have name : (advance s).2.cursor.current.kind = .identifier := beq_iff_eq.mp name
    rw [name]
    rintro _ _ ⟨⟩ <;> decide

theorem standsHead : Preserves (StandsIn row (close :: rest)) typeHead := by
  intro s inside
  unfold typeHead
  rw [bindAt, seesToken s]
  split
  · rename_i word
    refine Preserves.loop (standsDotted closed) _ _ (standsAdvance closed inside ?_)
    rintro _ _ ⟨⟩ <;> constructor <;> intro there <;> rw [there] at word <;> cases word
  · exact inside

theorem standsReference : Preserves (StandsIn row (close :: rest)) typeReference := by
  refine .next (.same fun _ => rfl) fun _ => .next (standsHead closed) fun head => .next ?_ fun scan => ?_
  · rintro s ⟨ordered, left, part, own, ahead⟩
    exact typeLoop closed part own ordered ahead
  · have add {n : Nat → Node} : Preserves (StandsIn row (close :: rest))
        (prevStop >>= fun stop => addNode (n stop)) := fun s inside => standsSame inside rfl
    exact .branch (fun _ => add) fun _ => .next (standsReport _) fun _ => add

theorem standsTypeRow (types : List Slot) : Preserves (StandsIn row (close :: rest)) (typeRowStep types) := by
  have comma : Unpaired (.punct .comma) := by rintro _ _ ⟨⟩ <;> decide
  exact .next (.same fun _ => rfl) fun _ => .branch (fun _ => .same fun _ => rfl) fun _ =>
    .next (.same fun _ => rfl) fun _ => .next (standsReference closed) fun _ =>
    .next (standsAccept closed comma) fun _ => .next (.same fun _ => rfl) fun _ =>
    .branch (fun _ => .same fun _ => rfl) fun _ => .same fun _ => rfl

/- On tokens whose brackets are closed by their own kind the look-ahead says yes and stops behind the `>` of
the first `<`. Reading stops there too, or before it at a token that it reports. -/
theorem typeArgumentsAgree (ordered : s.cursor.Ordered) (there : s.cursor.current.kind = .punct .less)
    (ahead : s.cursor.next.ahead = row ++ close :: rest) (own : Matched [] row) :
    let looked := skipTypeArguments s
    let read := (typeArguments s).2.cursor
    (looked.1 = true ∧ looked.2.cursor.ahead = rest) ∧
      (read.ahead = rest ∨ ∃ left, left ≠ [] ∧ left <:+ row ∧ read.ahead = left ++ close :: rest ∧
        read.lastErrorAt = some read.current.start) := by
  refine ⟨(skipExact ordered there).mpr ⟨row, close, ahead, closed, matchedAngled own⟩, ?_⟩
  have begun : StandsIn row (close :: rest) (advance s).2 :=
    ⟨nextOrdered ordered, row, List.suffix_refl row, own, ahead⟩
  obtain ⟨ordered', left, part, own', ahead'⟩ := Preserves.loop (standsTypeRow closed) [] _ begun
  have whole : (typeArguments s).2.cursor =
      (expect (.punct .greater) (loop typeRowStep [] (advance s).2).2).2.cursor := by
    unfold typeArguments
    rw [bindAt, seesHere s, bindAt, expectThere there]
    rfl
  generalize (loop typeRowStep [] (advance s).2).2 = s' at ordered' ahead' whole
  rw [whole]
  cases left with
  | nil =>
    have here : s'.cursor.current.kind = .punct .greater := by rw [(List.cons.inj ahead').1, closed]
    rw [expectThere here]
    exact .inl (List.cons.inj ((takeAhead ordered' (moreThere here)).symm.trans ahead')).2
  | cons t left =>
    have here : s'.cursor.current.kind ≠ .punct .greater := by
      rw [(List.cons.inj ahead').1]
      cases own' with
      | plain _ other => exact (other _ _ .angles).2
      | opens pair kind => cases pair <;> simp [kind]
    rw [expectElse here]
    have ahead' := (reportAhead s' (.tokenExpected (.punct .greater))).trans ahead'
    exact .inr ⟨t :: left, List.cons_ne_nil t left, part, ahead', reportStands s' _⟩

end

end Parse
end CallGuard
