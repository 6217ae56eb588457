import CallGuard.Fix.Synthesize
import CallGuard.Proofs.Token.Reading

/-! What the wrap of a statement does to the tokens of a text. It adds the tokens of the guard and
keeps every other one, kind and value, as long as no token of the statement reaches over a line
feed. A literal that does is changed, as the indentation goes into it. -/
namespace CallGuard

/-! ### Indenting -/

/- Behind every line feed comes the indentation. -/
def reindent (unit : List Char) : List Char → List Char
  | [] => []
  | c :: cs => if c = '\n' then c :: (unit ++ reindent unit cs) else c :: reindent unit cs

section
variable {unit : List Char}

theorem reindentFeed (cs : List Char) : reindent unit ('\n' :: cs) = '\n' :: (unit ++ reindent unit cs) :=
  rfl

theorem reindentOther {c : Char} (other : c ≠ '\n') (cs : List Char) :
    reindent unit (c :: cs) = c :: reindent unit cs := if_neg other

theorem reindentAppend (x y : List Char) : reindent unit (x ++ y) = reindent unit x ++ reindent unit y := by
  induction x with
  | nil => rfl
  | cons c x ih =>
    by_cases feed : c = '\n'
    · subst feed
      simp [reindentFeed, ih]
    · simp [reindentOther feed, ih]

theorem reindentFree {x : List Char} (free : '\n' ∉ x) : reindent unit x = x := by
  induction x with
  | nil => rfl
  | cons c x ih =>
    obtain ⟨other, free⟩ := not_or.mp (mt List.mem_cons.mpr free)
    rw [reindentOther (Ne.symm other), ih free]

theorem reindentHead (c : Char) (cs : List Char) : ∃ tail, reindent unit (c :: cs) = c :: tail := by
  by_cases feed : c = '\n'
  · subst feed
    exact ⟨_, rfl⟩
  · exact ⟨_, reindentOther feed cs⟩

/- A token does not notice that the text behind it is indented. -/
theorem lexedReindent {piece value text rest : List Char} {kind : TokenKind}
    (lexed : Lexed piece kind value (text ++ rest)) : Lexed piece kind value (reindent unit text ++ rest) := by
  by_cases feed : '\n' ∈ text
  · obtain ⟨x, y, rfl, free⟩ := List.eq_append_cons_of_mem feed
    rw [List.append_assoc, List.cons_append, lexedBehind rfl] at lexed
    rwa [reindentAppend, reindentFree free, reindentFeed, List.append_assoc, List.cons_append,
      lexedBehind rfl]
  · rwa [reindentFree feed]

theorem gapWithin {x g : List Char} {c : Char} {m : GapMode} (open' : ∀ d ∈ x, d ≠ '*')
    (gap : Gap .block (c :: g) m) : Gap .block (x ++ c :: g) m := by
  induction x with
  | nil => exact gap
  | cons d x ih =>
    obtain ⟨other, others⟩ := List.forall_mem_cons.mp open'
    cases x with
    | nil => exact .block (fun close => other close.1) (ih others)
    | cons e x => exact .block (fun close => other close.1) (ih others)

variable (blanks : ∀ u ∈ unit, u = ' ' ∨ u = '\t')
include blanks

theorem unitSpaces : ∀ u ∈ unit, isSpace u = true := by
  intro u own
  rcases blanks u own with rfl | rfl <;> rfl

theorem unitUnbroken : unit.any isLineBreak = false := by
  refine List.any_eq_false.mpr fun u own => ?_
  rcases blanks u own with rfl | rfl <;> decide

theorem gapReindent {m m' : GapMode} {g : List Char} (gap : Gap m g m') : Gap m (reindent unit g) m' := by
  induction gap with
  | nil => exact .nil
  | @space c g m space _ ih =>
    by_cases feed : c = '\n'
    · subst feed
      exact .space space ((Gap.spaces (unitSpaces blanks)).append ih)
    · rw [reindentOther feed]
      exact .space space ih
  | opensLine _ ih => exact .opensLine ih
  | opensBlock _ ih => exact .opensBlock ih
  | @endsLine c g m ends _ ih =>
    by_cases feed : c = '\n'
    · subst feed
      exact .endsLine ends ((Gap.spaces (unitSpaces blanks)).append ih)
    · rw [reindentOther feed]
      exact .endsLine ends ih
  | @line c g m within _ ih =>
    rw [reindentOther]
    · exact .line within ih
    · rintro rfl
      cases within
  | closes _ ih => exact .closes ih
  | @block c d g m within _ ih =>
    obtain ⟨tail, same⟩ := @reindentHead unit d g
    by_cases feed : c = '\n'
    · subst feed
      rw [reindentFeed, same, ← List.cons_append]
      rw [same] at ih
      refine gapWithin (List.forall_mem_cons.mpr ⟨by decide, fun u own => ?_⟩) ih
      rcases blanks u own with rfl | rfl <;> decide
    · rw [reindentOther feed, same]
      rw [same] at ih
      exact .block within ih

theorem brokenReindent (g : List Char) : (reindent unit g).any isLineBreak = g.any isLineBreak := by
  induction g with
  | nil => rfl
  | cons c g ih =>
    by_cases feed : c = '\n'
    · subst feed
      simp [reindentFeed, unitUnbroken blanks, ih]
    · simp [reindentOther feed, ih]

theorem tokensReindent {rest text : List Char} {s s' : Stand} {ps : List (Piece × Bool)}
    (tokens : Tokens rest s text ps s') :
    (∀ p ∈ ps, '\n' ∉ p.1.text) → Tokens rest s (reindent unit text) ps s' := by
  induction tokens with
  | @gap s g m gap =>
    intro _
    have same : s.past g m = s.past (reindent unit g) m := by rw [Stand.past, Stand.past, brokenReindent blanks]
    rw [same]
    exact .gap (gapReindent blanks gap)
  | @token s g piece kind value text ps s' gap lexed _ ih =>
    intro free
    obtain ⟨own, others⟩ := List.forall_mem_cons.mp free
    have same : s.past g .between = s.past (reindent unit g) .between := by
      rw [Stand.past, Stand.past, brokenReindent blanks]
    rw [same, reindentAppend, reindentAppend, reindentFree own]
    exact .token (gapReindent blanks gap) (lexedReindent lexed) (ih others)

theorem apartReindent {text : List Char} {ps : List Piece} (apart : Apart text ps)
    (free : ∀ p ∈ ps, '\n' ∉ p.text) : Apart (reindent unit text) ps := by
  intro rest broken
  obtain ⟨qs, broken', tokens, rfl⟩ := apart rest broken
  refine ⟨qs, broken', tokensReindent blanks tokens fun p own => free p.1 ?_, rfl⟩
  exact List.mem_map_of_mem own

end

/-! ### Inserting -/

open Text (byteLength)

namespace TextEdit

theorem applyInsert (pos : Nat) (x y : List Char) (new : String) (es : List TextEdit) :
    applyFrom pos (x ++ y) (⟨pos + byteLength x, 0, new⟩ :: es) =
      let done := applyFrom (pos + byteLength x) y es
      ⟨x ++ (new.toList ++ done.text), done.applied + 1, done.skipped⟩ := by
  have fits : (⟨pos + byteLength x, 0, new⟩ : TextEdit).around? pos (x ++ y) = some (x, y) := by
    rw [around?, if_neg (Nat.not_lt.mpr (Nat.le_add_right _ _)), Nat.add_sub_cancel_left,
      Text.splitAtAppend]
    cases y <;> rfl
  rw [applyFrom, fits]
  rfl

/- The indentation put behind each line feed of a text. -/
def indents (unit : List Char) (start : Nat) (text : List Char) : List TextEdit :=
  (LineMap.startsAfterBreaks start text).map fun pos => ⟨pos, 0, String.ofList unit⟩

theorem applyIndents (unit text behind : List Char) (close : String) :
    ∀ pos x, applyFrom pos (x ++ (text ++ behind))
        (indents unit (pos + byteLength x) text ++ [⟨pos + byteLength x + byteLength text, 0, close⟩]) =
      ⟨x ++ (reindent unit text ++ (close.toList ++ behind)),
        (indents unit (pos + byteLength x) text).length + 1, 0⟩ := by
  induction text with
  | nil => exact fun pos x => applyInsert pos x behind close []
  | cons c text ih =>
    intro pos x
    have wide : pos + byteLength x + c.utf8Size = pos + byteLength (x ++ [c]) := by
      simp [byteLength, Nat.add_assoc]
    have whole : x ++ (c :: text ++ behind) = (x ++ [c]) ++ (text ++ behind) := by simp
    rw [byteLength, ← Nat.add_assoc, wide, whole]
    by_cases feed : c = '\n'
    · subst feed
      have head : indents unit (pos + byteLength x) ('\n' :: text) =
          ⟨pos + byteLength (x ++ ['\n']), 0, String.ofList unit⟩ ::
            indents unit (pos + byteLength (x ++ ['\n'])) text := by
        rw [indents, LineMap.startsAfterBreaks, if_pos rfl, wide, List.map_cons]
        rfl
      have behindFeed := ih (pos + byteLength (x ++ ['\n'])) []
      rw [byteLength, Nat.add_zero, List.nil_append] at behindFeed
      rw [head, List.cons_append, applyInsert, behindFeed, reindentFeed]
      simp
    · have head : indents unit (pos + byteLength x) (c :: text) =
          indents unit (pos + byteLength (x ++ [c])) text := by
        rw [indents, LineMap.startsAfterBreaks, if_neg feed, wide]
        rfl
      rw [head, ih pos (x ++ [c]), reindentOther feed]
      simp

end TextEdit

namespace LineMap

theorem breaksPlace {start pos : Nat} {text : List Char} (own : pos ∈ startsAfterBreaks start text) :
    start < pos ∧ pos ≤ start + byteLength text := by
  induction text generalizing start with
  | nil => cases own
  | cons c text ih =>
    have wide := c.utf8Size_pos
    rw [startsAfterBreaks] at own
    rw [byteLength]
    split at own
    · rcases List.mem_cons.mp own with rfl | later
      · omega
      · have := ih later
        omega
    · have := ih own
      omega

theorem breaksOrder (start : Nat) (text : List Char) :
    (startsAfterBreaks start text).Pairwise (· < ·) := by
  induction text generalizing start with
  | nil => exact .nil
  | cons c text ih =>
    rw [startsAfterBreaks]
    split
    · exact .cons (fun pos own => (breaksPlace own).1) (ih _)
    · exact ih _

end LineMap

namespace Fix

/- A fix of insertions alone, in the order of their places. -/
structure Inserts (text : List Char) (edits : List TextEdit) : Prop where
  empty : ∀ e ∈ edits, e.length = 0
  inside : ∀ e ∈ edits, e.start ≤ byteLength text
  order : edits.Pairwise fun a b => a.start ≤ b.start

variable {text : List Char} {edits : List TextEdit}

theorem stopsFit (empty : ∀ e ∈ edits, e.length = 0) (inside : ∀ e ∈ edits, e.start ≤ Offset.max) :
    edits.mapM TextEdit.stop? = some (edits.map (·.start)) := by
  induction edits with
  | nil => rfl
  | cons e edits ih =>
    obtain ⟨none, empty⟩ := List.forall_mem_cons.mp empty
    obtain ⟨here, inside⟩ := List.forall_mem_cons.mp inside
    have stop : e.stop? = some e.start := by
      rw [TextEdit.stop?, Offset.add?, none, Nat.add_zero, if_pos here]
    rw [List.mapM_cons, stop, ih empty inside]
    rfl

theorem noConflict (empty : ∀ e ∈ edits, e.length = 0) (inside : ∀ e ∈ edits, e.start ≤ byteLength text)
    (fits : byteLength text ≤ Offset.max) : conflicts (byteLength text) [] edits = .ok false := by
  induction edits with
  | nil => rfl
  | cons e edits ih =>
    obtain ⟨none, empty⟩ := List.forall_mem_cons.mp empty
    obtain ⟨here, inside⟩ := List.forall_mem_cons.mp inside
    have stop : e.stop? = some e.start := by
      rw [TextEdit.stop?, Offset.add?, none, Nat.add_zero, if_pos (Nat.le_trans here fits)]
    rw [conflicts, stop]
    show (if _ then _ else _) = _
    rw [if_neg (by simpa using here), ih empty inside]

theorem applyInserts (inserts : Inserts text edits) (fits : byteLength text ≤ Offset.max)
    (ruleId description : String) :
    applyAll text [⟨ruleId, description, edits⟩] = .ok ⟨(TextEdit.applyFrom 0 text edits).text, 1, 0⟩ := by
  have chosen : select (byteLength text) ⟨[], 0, 0⟩ [⟨ruleId, description, edits⟩] = .ok ⟨edits, 1, 0⟩ := by
    rw [select, noConflict inserts.empty inserts.inside fits]
    rfl
  have sorted : edits.mergeSort TextEdit.before = edits := by
    refine List.mergeSort_of_pairwise (inserts.order.imp_of_mem fun {a b} left right less => ?_)
    simp only [TextEdit.before, inserts.empty a left, inserts.empty b right]
    simpa using Nat.lt_or_eq_of_le less
  have stops := stopsFit inserts.empty fun e own => Nat.le_trans (inserts.inside e own) fits
  rw [applyAll, chosen]
  show (TextEdit.applyAll text edits).bind _ = _
  rw [TextEdit.applyAll, stops, sorted]
  rfl

/-! ### Wrapping -/

/- What a wrap puts before and behind a statement: the guard with blanks around its braces. -/
structure Encloses (condition : List Char) (braced : Bool) (lead trail : List Char) : Prop where
  lead : ∃ g, (∀ c ∈ g, isSpace c = true) ∧
    lead = (if braced then ['{', ' '] else []) ++
      (['i', 'f'] ++ ([' ', '('] ++ (condition ++ ([')', ' ', '{'] ++ g))))
  trail : ∃ g, (∀ c ∈ g, isSpace c = true) ∧
    trail = g ++ ('}' :: if braced then [' ', '}'] else [])

theorem oneBlank : ∀ c ∈ [' '], isSpace c = true := List.forall_mem_singleton.mpr rfl

theorem unicodeSpace {c : Char} (space : isUnicodeSpace c = true) : isSpace c = true := by
  rw [isUnicodeSpace, Bool.or_eq_true, Bool.or_eq_true, Bool.and_eq_true, decide_eq_true_eq,
    decide_eq_true_eq, beq_iff_eq] at space
  rcases space with (⟨low, high⟩ | rfl) | wide
  · have code : c = '\t' ∨ c = '\n' ∨ c = '\x0b' ∨ c = '\x0c' ∨ c = '\r' := by
      simp only [← Char.toNat_inj]
      have : '\t'.toNat = 9 ∧ '\n'.toNat = 10 ∧ '\x0b'.toNat = 11 ∧ '\x0c'.toNat = 12 ∧ '\r'.toNat = 13 :=
        ⟨rfl, rfl, rfl, rfl, rfl⟩
      omega
    rcases code with rfl | rfl | rfl | rfl | rfl <;> rfl
  · rfl
  · cases line : isLineBreak c <;> simp [isSpace, isBlank, wide, line]

theorem unitBlanks (text indent : List Char) : ∀ u ∈ indentUnit text indent, u = ' ' ∨ u = '\t' := by
  intro u own
  rw [indentUnit] at own
  split at own
  · exact .inr (List.mem_singleton.mp own)
  · exact .inl (List.mem_replicate.mp own).2

theorem wrapForm {before statement behind : List Char} {condition : String} {braced : Bool}
    {edits : List TextEdit}
    (wrapped : wrapStatement? (before ++ (statement ++ behind)) (byteLength before)
      (byteLength before + byteLength statement) condition braced = some edits) :
    ∃ lead trail inner, edits = ⟨byteLength before, 0, lead⟩ ::
        (inner ++ [⟨byteLength before + byteLength statement, 0, trail⟩]) ∧
      Encloses condition.toList braced lead.toList trail.toList ∧
      (inner = [] ∨ braced = false ∧ ∃ unit, (∀ u ∈ unit, u = ' ' ∨ u = '\t') ∧
        inner = TextEdit.indents unit (byteLength before) statement) := by
  rw [wrapStatement?, Text.splitAtAppend] at wrapped
  simp only [Nat.le_add_right, if_true, Nat.add_sub_cancel_left, Text.splitAtAppend, Option.bind_some,
    bind] at wrapped
  split at wrapped
  · rename_i braces
    cases wrapped
    subst braces
    refine ⟨_, _, [], rfl, ⟨⟨[' '], oneBlank, by simp⟩, ⟨[' '], oneBlank, by simp⟩⟩, .inl rfl⟩
  · rename_i plain
    cases Bool.eq_false_iff.mpr plain
    split at wrapped
    · cases wrapped
      refine ⟨_, _, [], rfl, ⟨⟨[' '], oneBlank, by simp⟩, ⟨[' '], oneBlank, by simp⟩⟩, .inl rfl⟩
    · rename_i alone
      have blanks := unitBlanks (before ++ (statement ++ behind)) (before.reverse.takeWhile (· != '\n')).reverse
      generalize (before.reverse.takeWhile (· != '\n')).reverse = indent at wrapped alone blanks
      generalize indentUnit (before ++ (statement ++ behind)) indent = unit at wrapped blanks
      have blank : ∀ c ∈ indent, isSpace c = true := by
        have line : isBlankLine indent = true := by simpa using (not_or.mp (mt Bool.or_eq_true_iff.mpr alone)).1
        exact fun c own => unicodeSpace (List.all_eq_true.mp line c own)
      have inside : ∀ c ∈ indent ++ unit, isSpace c = true := fun c own =>
        (List.mem_append.mp own).elim (blank c) (unitSpaces blanks c)
      cases wrapped
      refine ⟨_, _, TextEdit.indents unit _ statement, rfl, ⟨⟨'\n' :: (indent ++ unit), ?_, by simp⟩,
        ⟨'\n' :: indent, ?_, by simp⟩⟩, .inr ⟨rfl, unit, blanks, rfl⟩⟩
      · exact List.forall_mem_cons.mpr ⟨rfl, inside⟩
      · exact List.forall_mem_cons.mpr ⟨rfl, blank⟩

/-! ### The tokens of the guard -/

def ifPiece : Piece := ⟨['i', 'f'], .word .ifWord, ['i', 'f']⟩

/- What the guard adds before and behind the tokens of a statement. -/
def opening (braced : Bool) (condition : List Piece) : List Piece :=
  (if braced then [Punctuator.openBrace.piece] else []) ++ ([ifPiece] ++ ([Punctuator.openParen.piece] ++
    (condition ++ [Punctuator.closeParen.piece, Punctuator.openBrace.piece])))

def closing (braced : Bool) : List Piece :=
  Punctuator.closeBrace.piece :: if braced then [Punctuator.closeBrace.piece] else []

theorem blankApart {g : List Char} (blank : ∀ c ∈ g, isSpace c = true) : Apart g [] :=
  .gap (.spaces blank)

theorem ifReads : Reads [] .between ['i', 'f'] [ifPiece] .between :=
  .token (.word (by decide +kernel) (by decide +kernel))

theorem leadApart {condition lead trail : List Char} {braced : Bool} {cs : List Piece}
    (test : Reads [] .between condition cs .between) (encloses : Encloses condition braced lead trail) :
    Apart lead (opening braced cs) := by
  obtain ⟨⟨g, blank, rfl⟩, _⟩ := encloses
  have space : Apart [' '] [] := blankApart oneBlank
  have brace : Apart ['{'] [Punctuator.openBrace.piece] := .sign .openBrace (by decide)
  have paren : Apart ['('] [Punctuator.openParen.piece] := .sign .openParen (by decide)
  have close : Apart [')'] [Punctuator.closeParen.piece] := .sign .closeParen (by decide)
  have behind : Apart ([')', ' ', '{'] ++ g) [Punctuator.closeParen.piece, Punctuator.openBrace.piece] :=
    (close.append (space.append brace)).append (blankApart blank)
  refine .append ?_ (.ends ifReads ((space.append paren).append (.ends test behind rfl)) rfl)
  cases braced with
  | false => exact .nil
  | true => exact brace.append space

theorem trailApart {condition lead trail : List Char} {braced : Bool}
    (encloses : Encloses condition braced lead trail) : Apart trail (closing braced) := by
  obtain ⟨_, g, blank, rfl⟩ := encloses
  have space : Apart [' '] [] := blankApart oneBlank
  have brace : Apart ['}'] [Punctuator.closeBrace.piece] := .sign .closeBrace (by decide)
  have more : Apart (if braced then [' ', '}'] else [])
      (if braced then [Punctuator.closeBrace.piece] else []) := by
    cases braced with
    | false => exact .nil
    | true => exact space.append brace
  exact (blankApart blank).append (brace.append more)

/- A text cut at both ends of a statement. -/
structure Stands (before statement behind : List Char) (ps qs rs : List Piece) : Prop where
  before : Reads (statement ++ behind) .between before ps .between
  own : Apart statement qs
  behind : ∃ m, Reads [] .between behind rs m ∧ m ≠ .block

section
variable {before statement behind : List Char} {ps qs rs cs : List Piece} {condition : String}
  {braced : Bool} {edits : List TextEdit}

theorem standsShown (stands : Stands before statement behind ps qs rs) :
    Scan.Shows (Scan.ofText (before ++ (statement ++ behind))) (ps ++ (qs ++ rs)) := by
  obtain ⟨m, last, closed⟩ := stands.behind
  have first := stands.before
  rw [← List.append_nil (statement ++ behind)] at first
  exact Scan.readsShows (first.append ((stands.own _).append last)) closed 0

theorem noFeed {start : Nat} {text : List Char} (none : LineMap.startsAfterBreaks start text = []) :
    '\n' ∉ text := by
  induction text generalizing start with
  | nil => nofun
  | cons c text ih =>
    rw [LineMap.startsAfterBreaks] at none
    split at none
    · cases none
    · rename_i other
      exact fun own => (List.mem_cons.mp own).elim (fun same => other same.symm) (ih none)

theorem indentsPlace {unit text : List Char} {start : Nat} :
    ∀ e ∈ TextEdit.indents unit start text, e.length = 0 ∧ start ≤ e.start ∧ e.start ≤ start + byteLength text := by
  intro e own
  obtain ⟨pos, place, rfl⟩ := List.mem_map.mp own
  obtain ⟨left, right⟩ := LineMap.breaksPlace place
  exact ⟨rfl, Nat.le_of_lt left, right⟩

theorem indentsOrder (unit text : List Char) (start : Nat) :
    (TextEdit.indents unit start text).Pairwise fun a b => a.start ≤ b.start :=
  List.pairwise_map.mpr ((LineMap.breaksOrder start text).imp Nat.le_of_lt)

theorem wrapInserts {inner : List TextEdit} {lead trail : String}
    (place : ∀ e ∈ inner, e.length = 0 ∧ byteLength before ≤ e.start ∧
      e.start ≤ byteLength before + byteLength statement)
    (order : inner.Pairwise fun a b => a.start ≤ b.start) :
    Inserts (before ++ (statement ++ behind)) (⟨byteLength before, 0, lead⟩ ::
      (inner ++ [⟨byteLength before + byteLength statement, 0, trail⟩])) := by
  have each {good : TextEdit → Prop} (first : good ⟨byteLength before, 0, lead⟩)
      (own : ∀ e ∈ inner, good e) (last : good ⟨byteLength before + byteLength statement, 0, trail⟩) :
      ∀ e ∈ (⟨byteLength before, 0, lead⟩ : TextEdit) ::
        (inner ++ [⟨byteLength before + byteLength statement, 0, trail⟩]), good e :=
    List.forall_mem_cons.mpr ⟨first, List.forall_mem_append.mpr ⟨own, List.forall_mem_singleton.mpr last⟩⟩
  have long : byteLength (before ++ (statement ++ behind)) =
      byteLength before + (byteLength statement + byteLength behind) := by simp
  refine ⟨each rfl (fun e own => (place e own).1) rfl, ?_, ?_⟩
  · rw [long]
    refine each (by dsimp only; omega) (fun e own => ?_) (by dsimp only; omega)
    have := place e own
    omega
  · refine .cons ?_ (List.pairwise_append.mpr ⟨order, List.pairwise_singleton _ _, ?_⟩)
    · refine List.forall_mem_append.mpr ⟨fun e own => (place e own).2.1, ?_⟩
      exact List.forall_mem_singleton.mpr (Nat.le_add_right _ _)
    · intro e own last same
      cases List.mem_singleton.mp same
      exact (place e own).2.2

/- The text that a wrap makes. -/
theorem wrapApplied (fits : byteLength (before ++ (statement ++ behind)) ≤ Offset.max)
    (wrapped : wrapStatement? (before ++ (statement ++ behind)) (byteLength before)
      (byteLength before + byteLength statement) condition braced = some edits)
    (ruleId description : String) :
    ∃ lead body trail, Encloses condition.toList braced lead trail ∧
      (body = statement ∨ 2 < edits.length ∧ ∃ unit, (∀ u ∈ unit, u = ' ' ∨ u = '\t') ∧
        body = reindent unit statement) ∧
      applyAll (before ++ (statement ++ behind)) [⟨ruleId, description, edits⟩] =
        .ok ⟨before ++ (lead ++ (body ++ (trail ++ behind))), 1, 0⟩ := by
  obtain ⟨lead, trail, inner, rfl, encloses, form⟩ := wrapForm wrapped
  have first := TextEdit.applyInsert 0 before (statement ++ behind) lead
  rw [Nat.zero_add] at first
  rcases form with rfl | ⟨_, unit, blanks, rfl⟩
  · refine ⟨lead.toList, statement, trail.toList, encloses, .inl rfl, ?_⟩
    have inserts := @wrapInserts before statement behind [] lead trail nofun .nil
    rw [applyInserts inserts fits, first, List.nil_append, TextEdit.applyInsert]
    rfl
  · have inserts := @wrapInserts before statement behind _ lead trail indentsPlace
      (indentsOrder unit statement (byteLength before))
    refine ⟨lead.toList, reindent unit statement, trail.toList, encloses, ?_, ?_⟩
    · cases feeds : LineMap.startsAfterBreaks (byteLength before) statement with
      | nil => exact .inl (reindentFree (noFeed feeds))
      | cons pos more =>
        refine .inr ⟨?_, unit, blanks, rfl⟩
        simp [TextEdit.indents, feeds]
    · have indented := TextEdit.applyIndents unit statement behind trail (byteLength before) []
      rw [byteLength, Nat.add_zero, List.nil_append] at indented
      rw [applyInserts inserts fits, first, indented]
      rfl

/- A wrap adds the tokens of the guard and keeps every other one. -/
theorem wrapShown (stands : Stands before statement behind ps qs rs)
    (loose : ∀ rest, (braced = true → rest.head?.any separates = true) →
      Reads rest .between before ps .between)
    (test : Reads [] .between condition.toList cs .between)
    (fits : byteLength (before ++ (statement ++ behind)) ≤ Offset.max)
    (wrapped : wrapStatement? (before ++ (statement ++ behind)) (byteLength before)
      (byteLength before + byteLength statement) condition braced = some edits)
    (whole : 2 < edits.length → ∀ q ∈ qs, '\n' ∉ q.text) (ruleId description : String) :
    ∃ fixed, applyAll (before ++ (statement ++ behind)) [⟨ruleId, description, edits⟩] =
        .ok ⟨fixed, 1, 0⟩ ∧
      Scan.Shows (Scan.ofText fixed) (ps ++ (opening braced cs ++ (qs ++ (closing braced ++ rs)))) := by
  obtain ⟨lead, body, trail, encloses, form, applied⟩ := wrapApplied fits wrapped ruleId description
  refine ⟨_, applied, ?_⟩
  obtain ⟨m, last, closed⟩ := stands.behind
  have own : Apart body qs := by
    rcases form with rfl | ⟨many, unit, blanks, rfl⟩
    · exact stands.own
    · exact apartReindent blanks stands.own (whole many)
  have opens : braced = true → (lead ++ (body ++ (trail ++ behind))).head?.any separates = true := by
    rintro rfl
    obtain ⟨⟨g, _, rfl⟩, _⟩ := encloses
    rfl
  have first := loose _ opens
  have guarded := (leadApart test encloses).append (own.append (trailApart encloses))
  have text : lead ++ (body ++ (trail ++ behind)) = lead ++ (body ++ trail) ++ behind := by simp
  have pieces : opening braced cs ++ (qs ++ (closing braced ++ rs)) =
      opening braced cs ++ (qs ++ closing braced) ++ rs := by simp
  rw [text] at first ⊢
  rw [pieces]
  rw [← List.append_nil (_ ++ behind)] at first
  exact Scan.readsShows (first.append ((guarded _).append last)) closed 0

end

end Fix

end CallGuard
