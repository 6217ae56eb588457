import CallGuard.Proofs.Parser.Speculation

/-! Scanning with marks that are kept. Whatever is scanned, saved and gone back to, the scanner shows
what it shows after some number of plain scans, and that number is counted beside it. Its faults are cut
back to as many as a mark has counted, so they are those of the plain scans as long as no mark is used
again that a return has passed. -/
namespace CallGuard

namespace Scanner

inductive Step where
  | scan
  | save
  | restore (index : Nat)
  deriving DecidableEq, Repr

/- A scanner and the marks made so far, the first one first. Every mark stays. -/
structure Session where
  scanner : Scanner
  marks : List Mark

/- How often a text was scanned without going back, and the same for each mark. -/
structure Tally where
  scans : Nat
  saved : List Nat
  deriving DecidableEq, Repr

def Session.ofText (text : List Char) : Session := ⟨.ofText text, []⟩

def Session.step? (session : Session) : Step → Option Session
  | .scan => some ⟨session.scanner.advance, session.marks⟩
  | .save => some ⟨session.scanner, session.marks ++ [session.scanner.mark]⟩
  | .restore index => session.marks[index]?.map fun mark => ⟨session.scanner.restore mark, session.marks⟩

def Session.run? (session : Session) (steps : List Step) : Option Session := steps.foldlM Session.step? session

def Tally.none : Tally := ⟨0, []⟩

def Tally.step? (tally : Tally) : Step → Option Tally
  | .scan => some ⟨tally.scans + 1, tally.saved⟩
  | .save => some ⟨tally.scans, tally.saved ++ [tally.scans]⟩
  | .restore index => tally.saved[index]?.map fun scans => ⟨scans, tally.saved⟩

def Tally.run? (tally : Tally) (steps : List Step) : Option Tally := steps.foldlM Tally.step? tally

/- The scanner after that many scans in a row. -/
def plain (text : List Char) (scans : Nat) : Scanner := advance^[scans] (.ofText text)

def saves (steps : List Step) : Nat := steps.countP (· = .save)

/- No return has passed the mark: each one went to a mark not older than this one, or was over when this
one was made. -/
def Live (steps : List Step) (index : Nat) : Prop :=
  ∀ (place target : Nat), steps[place]? = some (.restore target) →
    index ≤ target ∨ saves (steps.take place) ≤ index

/- Behind a return no mark is used that was made after its mark and before the return. -/
def WellNested (steps : List Step) : Prop :=
  ∀ (place later target index : Nat), place < later → steps[place]? = some (.restore target) →
    steps[later]? = some (.restore index) → index ≤ target ∨ saves (steps.take place) ≤ index

instance (steps : List Step) : Decidable (WellNested steps) :=
  decidable_of_iff (∀ later < steps.length, ∀ place < later,
    (match steps[place]?, steps[later]? with
      | some (.restore target), some (.restore index) =>
        decide (index ≤ target ∨ saves (steps.take place) ≤ index)
      | _, _ => true : Bool) = true) <| by
    constructor
    · intro nested place later target index order found used
      have inside := (List.getElem?_eq_some_iff.mp used).1
      simpa [found, used] using nested later inside place order
    · intro nested later _ place order
      split
      · exact decide_eq_true (nested place later _ _ order ‹_› ‹_›)
      · rfl

/- What is shown and what is still to be read, without the faults. -/
def view (s : Scanner) : Token × List Char := (s.token, s.rest)

def Mark.view (mark : Mark) : Token × List Char := (mark.token, mark.rest)

section Views
variable {s s' : Scanner}

theorem viewAdvanced (same : s.view = s'.view) : s.advance.view = s'.advance.view := by
  obtain ⟨token, rest⟩ := Prod.mk.inj same
  simp only [view, advance, token, rest]

end Views

section Plain
variable (text : List Char) {few many : Nat}

theorem plainNext (scans : Nat) : plain text (scans + 1) = (plain text scans).advance :=
  Function.iterate_succ_apply' _ _ _

theorem plainRestored (fewer : few ≤ many) :
    (plain text many).restore (plain text few).mark = plain text few :=
  restoreLater fewer

end Plain

section Nesting
variable {steps : List Step} {step : Step} {index target place : Nat}

theorem savesNext (steps : List Step) (step : Step) :
    saves (steps ++ [step]) = saves steps + if step = .save then 1 else 0 := by
  cases step <;> simp [saves]

theorem earlierStep (found : steps[place]? = some step) (further : List Step) :
    (steps ++ further)[place]? = some step ∧ (steps ++ further).take place = steps.take place := by
  obtain ⟨inside, _⟩ := List.getElem?_eq_some_iff.mp found
  exact ⟨(List.getElem?_append_left inside).trans found, List.take_append_of_le_length inside.le⟩

theorem liveBefore (further : List Step) (live : Live (steps ++ further) index) : Live steps index := by
  intro place target found
  obtain ⟨there, before⟩ := earlierStep found further
  exact before ▸ live place target there

/- Only the return itself decides anew which marks it has passed. -/
theorem liveReturned (live : Live (steps ++ [.restore target]) index) (made : index < saves steps) :
    index ≤ target := by
  have last := live steps.length target (by simp)
  rw [List.take_left] at last
  omega

theorem nestedBefore (further : List Step) (nested : WellNested (steps ++ further)) : WellNested steps := by
  intro place later target index order found used
  obtain ⟨there, before⟩ := earlierStep found further
  exact before ▸ nested place later target index order there (earlierStep used further).1

theorem nestedReturn (nested : WellNested (steps ++ [.restore index])) : Live steps index := by
  intro place target found
  obtain ⟨inside, _⟩ := List.getElem?_eq_some_iff.mp found
  obtain ⟨there, before⟩ := earlierStep found [.restore index]
  exact before ▸ nested place steps.length target index inside there (by simp)

end Nesting

/- What a session shows, and what its marks will show again. -/
structure Shows (text : List Char) (session : Session) (tally : Tally) : Prop where
  scanner : session.scanner.view = (plain text tally.scans).view
  marks : session.marks.map Mark.view = tally.saved.map fun scans => (plain text scans).view

/- Of the marks that no return has passed, a later one stands further on; none is ahead. -/
structure Nested (text : List Char) (steps : List Step) (session : Session) (tally : Tally) : Prop where
  made : tally.saved.length = saves steps
  scanner : session.scanner = plain text tally.scans
  marks : ∀ (index scans : Nat), Live steps index → tally.saved[index]? = some scans →
    session.marks[index]? = some (plain text scans).mark ∧ scans ≤ tally.scans
  sorted : ∀ (first second few many : Nat), first ≤ second → Live steps first → Live steps second →
    tally.saved[first]? = some few → tally.saved[second]? = some many → few ≤ many

section Steps
variable {text : List Char} {steps : List Step} {session session' : Session} {tally tally' : Tally}

/- A step finds its mark in the session exactly where it finds it in the tally. -/
theorem showsStep (shows : Shows text session tally) (step : Step) :
    Option.Rel (Shows text) (session.step? step) (tally.step? step) := by
  cases step with
  | scan =>
    exact .some ⟨(viewAdvanced shows.scanner).trans (congrArg view (plainNext text _).symm), shows.marks⟩
  | save =>
    refine .some ⟨shows.scanner, ?_⟩
    rw [List.map_append, List.map_append, shows.marks]
    exact congrArg _ (congrArg (fun v => [v]) shows.scanner)
  | restore index =>
    have there := congrArg (fun views : List (Token × List Char) => views[index]?) shows.marks
    simp only [List.getElem?_map] at there
    simp only [Session.step?, Tally.step?]
    cases mark : session.marks[index]? with
    | none =>
      cases scans : tally.saved[index]? with
      | none => exact .none
      | some k => simp [mark, scans] at there
    | some m =>
      cases scans : tally.saved[index]? with
      | none => simp [mark, scans] at there
      | some k =>
        rw [mark, scans] at there
        exact .some ⟨Option.some.inj there, shows.marks⟩

theorem nestedScan (nested : Nested text steps session tally) :
    Nested text (steps ++ [.scan]) ⟨session.scanner.advance, session.marks⟩ ⟨tally.scans + 1, tally.saved⟩ where
  made := by simpa [savesNext] using nested.made
  scanner := by
    rw [plainNext, ← nested.scanner]
  marks index scans live found := by
    obtain ⟨mark, behind⟩ := nested.marks index scans (liveBefore _ live) found
    exact ⟨mark, behind.trans (Nat.le_succ _)⟩
  sorted first second few many order one two :=
    nested.sorted first second few many order (liveBefore _ one) (liveBefore _ two)

/- The new mark stands at the place at hand, and no mark in use is ahead of that. -/
theorem nestedSave (shows : Shows text session tally) (nested : Nested text steps session tally) :
    Nested text (steps ++ [.save]) ⟨session.scanner, session.marks ++ [session.scanner.mark]⟩
      ⟨tally.scans, tally.saved ++ [tally.scans]⟩ := by
  have even : session.marks.length = tally.saved.length := by
    simpa using congrArg List.length shows.marks
  have behind {index scans : Nat} (live : Live (steps ++ [.save]) index)
      (found : (tally.saved ++ [tally.scans])[index]? = some scans) :
      tally.saved[index]? = some scans ∨ index = tally.saved.length ∧ scans = tally.scans := by
    rcases Nat.lt_trichotomy index tally.saved.length with old | new | none
    · exact .inl (List.getElem?_append_left old ▸ found)
    · exact .inr ⟨new, by simpa [new] using found.symm⟩
    · rw [List.getElem?_eq_none (by simpa using none)] at found
      cases found
  refine ⟨by simpa [savesNext] using nested.made, nested.scanner, ?_, ?_⟩
  · intro index scans live found
    rcases behind live found with old | ⟨rfl, rfl⟩
    · obtain ⟨mark, le⟩ := nested.marks index scans (liveBefore _ live) old
      exact ⟨by rw [List.getElem?_append_left (List.getElem?_eq_some_iff.mp mark).1, mark], le⟩
    · exact ⟨by rw [← even, List.getElem?_concat_length, nested.scanner], le_rfl⟩
  · intro first second few many order one two early late
    rcases behind one early with old | ⟨rfl, rfl⟩ <;> rcases behind two late with old' | ⟨rfl, rfl⟩
    · exact nested.sorted first second few many order (liveBefore _ one) (liveBefore _ two) old old'
    · exact (nested.marks first few (liveBefore _ one) old).2
    · have inside := (List.getElem?_eq_some_iff.mp old').1
      omega
    · exact le_rfl

theorem nestedRestore {index scans : Nat} {mark : Mark} (nested : Nested text steps session tally)
    (live : Live steps index) (found : tally.saved[index]? = some scans)
    (kept : session.marks[index]? = some mark) :
    Nested text (steps ++ [.restore index]) ⟨session.scanner.restore mark, session.marks⟩
      ⟨scans, tally.saved⟩ where
  made := by simpa [savesNext] using nested.made
  scanner := by
    obtain ⟨same, behind⟩ := nested.marks index scans live found
    obtain rfl := Option.some.inj (kept.symm.trans same)
    rw [nested.scanner]
    exact plainRestored text behind
  marks other few live' found' := by
    have before := liveBefore _ live'
    have made := nested.made ▸ (List.getElem?_eq_some_iff.mp found').1
    exact ⟨(nested.marks other few before found').1,
      nested.sorted other index few scans (liveReturned live' made) before live found' found⟩
  sorted first second few many order one two :=
    nested.sorted first second few many order (liveBefore _ one) (liveBefore _ two)

/- A step keeps both, as long as it goes back to no mark that was passed. -/
theorem nestedStep (shows : Shows text session tally) (nested : Nested text steps session tally) {step : Step}
    (proper : WellNested (steps ++ [step])) (stepped : session.step? step = some session')
    (counted : tally.step? step = some tally') : Nested text (steps ++ [step]) session' tally' := by
  cases step with
  | scan =>
    cases stepped
    cases counted
    exact nestedScan nested
  | save =>
    cases stepped
    cases counted
    exact nestedSave shows nested
  | restore index =>
    obtain ⟨mark, kept, rfl⟩ := Option.map_eq_some_iff.mp stepped
    obtain ⟨scans, found, rfl⟩ := Option.map_eq_some_iff.mp counted
    exact nestedRestore nested (nestedReturn proper) found kept

/- A whole run: the induction is on the steps from the last one on, since being well nested is handed
down to a front of the steps only. -/
theorem sessionRun (text : List Char) (steps : List Step) :
    Option.Rel (fun session tally => Shows text session tally ∧
        (WellNested steps → Nested text steps session tally))
      ((Session.ofText text).run? steps) (Tally.none.run? steps) := by
  induction steps using List.reverseRecOn with
  | nil =>
    exact .some ⟨⟨rfl, rfl⟩, fun _ => ⟨rfl, rfl, fun _ _ _ found => by simp [Tally.none] at found,
      fun _ _ _ _ _ _ _ found => by simp [Tally.none] at found⟩⟩
  | append_singleton steps step ih =>
    simp only [Session.run?, Tally.run?, List.foldlM_append, List.foldlM_cons, List.foldlM_nil, bind_pure]
    rw [Session.run?, Tally.run?] at ih
    generalize steps.foldlM Session.step? (Session.ofText text) = before at ih
    generalize steps.foldlM Tally.step? Tally.none = counted at ih
    cases ih with
    | none => exact .none
    | @some session tally holds =>
      obtain ⟨shows, nested⟩ := holds
      have next := showsStep shows step
      simp only [Option.bind_eq_bind, Option.bind_some]
      cases stepped : session.step? step with
      | none =>
        rw [stepped] at next
        cases counted : tally.step? step with
        | none => exact .none
        | some _ => rw [counted] at next; cases next
      | some session' =>
        rw [stepped] at next
        cases counted : tally.step? step with
        | none => rw [counted] at next; cases next
        | some tally' =>
          rw [counted] at next
          cases next with
          | some shows' =>
            exact .some ⟨shows', fun proper =>
              nestedStep shows (nested (nestedBefore _ proper)) proper stepped counted⟩

end Steps

/- A step is refused where its mark was never made. The token of a scanner has its kind, its places, its
value and whether a line ends before it; it stops where the scanner stands. -/
theorem sessionsCount (text : List Char) (steps : List Step) :
    Option.Rel
      (fun session tally =>
        session.scanner.token = (plain text tally.scans).token ∧
        session.scanner.rest = (plain text tally.scans).rest ∧
        session.marks.map (fun mark => (mark.token, mark.rest)) =
          tally.saved.map (fun scans => ((plain text scans).token, (plain text scans).rest)) ∧
        (WellNested steps → session.scanner.errors = (plain text tally.scans).errors))
      ((Session.ofText text).run? steps) (Tally.none.run? steps) := by
  have run := sessionRun text steps
  generalize (Session.ofText text).run? steps = session at run ⊢
  generalize Tally.none.run? steps = tally at run ⊢
  cases run with
  | none => exact .none
  | some holds =>
    obtain ⟨shows, nested⟩ := holds
    obtain ⟨token, rest⟩ := Prod.mk.inj shows.scanner
    exact .some ⟨token, rest, shows.marks, fun proper => congrArg errors (nested proper).scanner⟩

/- A fault is met, forgotten on the way back and met again. -/
theorem sessionsCountFault :
    WellNested [.save, .scan, .save, .restore 1, .restore 0, .scan] ∧
    ∃ session, (Session.ofText ['#', 'a']).run? [.save, .scan, .save, .restore 1, .restore 0, .scan] =
        some session ∧
      session.scanner.token = (plain ['#', 'a'] 1).token ∧
      session.scanner.errors = (plain ['#', 'a'] 1).errors ∧ session.scanner.errors ≠ [] := by
  have nested : WellNested [.save, .scan, .save, .restore 1, .restore 0, .scan] := by decide
  refine ⟨nested, ?_⟩
  have run := sessionsCount ['#', 'a'] [.save, .scan, .save, .restore 1, .restore 0, .scan]
  obtain ⟨session, stepped⟩ : ∃ session, (Session.ofText ['#', 'a']).run?
      [.save, .scan, .save, .restore 1, .restore 0, .scan] = some session := ⟨_, rfl⟩
  have counted : Tally.none.run? [.save, .scan, .save, .restore 1, .restore 0, .scan] =
      some ⟨1, [0, 1]⟩ := rfl
  rw [stepped, counted] at run
  cases run with
  | some holds =>
    obtain ⟨token, _, _, errors⟩ := holds
    refine ⟨session, stepped, token, errors nested, ?_⟩
    rw [errors nested]
    decide +kernel

/- Behind a return to the first mark the second one is used: the faults are cut back twice. -/
example :
    ((Session.ofText ['#']).run? [.save, .scan, .save, .restore 0, .restore 1]).map (·.scanner.errors.length) =
      some 0 ∧ (plain ['#'] 1).errors.length = 1 := by
  decide +kernel

end Scanner

end CallGuard
