import CallGuard.Proofs.Token.Reading
import CallGuard.Proofs.Token.Tiling
import Mathlib.Data.List.TakeWhile

/-! What stands between the tokens of a text is no part of them. A piece of a text is the same token also
where nothing follows it, and so also before a blank; the pieces may be put into a row again with other
blanks and line ends between them. -/
namespace CallGuard

open Text

/-! ### A piece alone -/

namespace Number

/- What is read is also read where the text ends earlier, behind the part that was read. -/
def Ends (f : List Char → Split) : Prop :=
  ∀ taken left behind, f (taken ++ (left ++ behind)) = (taken, left ++ behind) →
    f (taken ++ left) = (taken, left)

theorem takeRunEnds (p : Char → Bool) : Ends (takeRun p) := by
  intro taken left behind read
  obtain ⟨run, stop⟩ := Prod.mk.inj read
  have all : ∀ c ∈ taken, p c = true := by
    rw [← run]
    exact fun c member => List.mem_takeWhile_imp member
  rw [List.dropWhile_append_of_pos all] at stop
  rw [takeRun, List.takeWhile_append_of_pos all, List.dropWhile_append_of_pos all]
  cases left with
  | nil => simp
  | cons c left =>
    have first : ¬ p c = true := List.dropWhile_eq_self_iff.mp stop (Nat.succ_pos _)
    simp [first]

theorem fractionEnds : Ends fraction := by
  intro taken left behind read
  cases taken with
  | nil =>
    rw [List.nil_append] at read ⊢
    match left with
    | [] => rfl
    | [c] =>
      unfold fraction
      split <;> simp_all
    | c :: d :: left =>
      by_cases point : c = '.'
      · subst point
        cases digit : isAsciiDigit d with
        | true => simp [fraction, digit] at read
        | false => simp [fraction, digit]
      · simp [fraction, point]
  | cons c taken =>
    unfold fraction at read
    split at read
    · rename_i d cs whole
      injection whole with point whole
      subst point
      split at read
      · rename_i digit
        obtain ⟨digits, rest⟩ := Prod.mk.inj read
        have run := takeRunEnds isAsciiDigit taken left behind
          ((congrArg _ whole).trans (Prod.ext (List.cons.inj digits).2 rest))
        cases taken with
        | nil => simp [digit] at digits
        | cons e taken =>
          injection whole with same
          subst same
          simp only [List.cons_append] at run ⊢
          simp only [fraction, digit, if_true, run]
      · cases read
    · cases read

theorem signEnds : Ends sign := by
  intro taken left behind read
  cases taken with
  | nil =>
    rw [List.nil_append] at read ⊢
    cases left with
    | nil => rfl
    | cons c left =>
      unfold sign at read ⊢
      split at read <;> simp_all
  | cons c taken =>
    unfold sign at read
    split at read
    · rename_i whole
      obtain ⟨rfl, -⟩ := List.cons.inj whole
      obtain ⟨-, rfl⟩ := List.cons.inj (Prod.mk.inj read).1
      rfl
    · rename_i whole
      obtain ⟨rfl, -⟩ := List.cons.inj whole
      obtain ⟨-, rfl⟩ := List.cons.inj (Prod.mk.inj read).1
      rfl
    · cases read

theorem bigSuffixEnds : Ends bigSuffix := by
  intro taken left behind read
  cases taken with
  | nil =>
    rw [List.nil_append] at read ⊢
    cases left with
    | nil => rfl
    | cons c left =>
      unfold bigSuffix at read ⊢
      split at read <;> simp_all
  | cons c taken =>
    unfold bigSuffix at read
    split at read
    · rename_i whole
      obtain ⟨rfl, -⟩ := List.cons.inj whole
      obtain ⟨-, rfl⟩ := List.cons.inj (Prod.mk.inj read).1
      rfl
    · cases read

/- Whether a digit follows a sign is seen on the text that is left of it. -/
theorem unsigned {left behind : List Char} (none : (takeRun isAsciiDigit (sign (left ++ behind)).2).1 = []) :
    (takeRun isAsciiDigit (sign left).2).1 = [] := by
  have front (cs : List Char) (no : (takeRun isAsciiDigit (cs ++ behind)).1 = []) :
      (takeRun isAsciiDigit cs).1 = [] := by
    cases cs with
    | nil => rfl
    | cons c cs =>
      cases digit : isAsciiDigit c with
      | true => simp [takeRun, digit] at no
      | false => simp [takeRun, digit]
  cases left with
  | nil => rfl
  | cons c left =>
    refine front _ ?_
    rw [← none]
    unfold sign
    split <;> simp_all

/- An exponent is a mark, a sign and at least one digit. -/
theorem exponentParts {c : Char} {cs taken rest : List Char} (read : exponent (c :: cs) = (c :: taken, rest)) :
    (c == 'e' || c == 'E') = true ∧ ∃ sgn digits, digits ≠ [] ∧ taken = sgn ++ digits ∧
      sign cs = (sgn, digits ++ rest) ∧ takeRun isAsciiDigit (digits ++ rest) = (digits, rest) := by
  simp only [exponent] at read
  split at read
  · rename_i mark
    have after := takeRunAppend isAsciiDigit (sign cs).2
    split at read
    · cases read
    · rename_i some
      obtain ⟨digits, left⟩ := Prod.mk.inj read
      rw [left] at after
      refine ⟨mark, (sign cs).1, (takeRun isAsciiDigit (sign cs).2).1, by simpa using some,
        (List.cons.inj digits).2.symm, Prod.ext rfl after.symm, ?_⟩
      rw [after]
      exact Prod.ext rfl left
  · cases read

theorem exponentEnds : Ends exponent := by
  intro taken left behind read
  cases taken with
  | nil =>
    rw [List.nil_append] at read ⊢
    cases left with
    | nil => rfl
    | cons c left =>
      simp only [List.cons_append, exponent] at read ⊢
      split at read
      · rename_i mark
        rw [if_pos mark]
        have none : (takeRun isAsciiDigit (sign (left ++ behind)).2).1 = [] := by
          by_contra some
          rw [if_neg (by simpa using some)] at read
          cases read
        simp [unsigned none]
      · rename_i plain
        rw [if_neg plain]
  | cons c taken =>
    obtain ⟨mark, sgn, digits, some, rfl, first, run⟩ := exponentParts read
    have signed := signEnds sgn (digits ++ left) behind (by simpa using first)
    have ended := takeRunEnds isAsciiDigit digits left behind run
    simp only [List.cons_append, List.append_assoc, exponent, mark, if_true, signed, ended]
    rw [if_neg (by simpa using some)]

theorem radixMarked {mark cs : List Char} (marked : radixMark? (mark ++ cs) = some (mark, cs)) (cs' : List Char) :
    radixMark? (mark ++ cs') = some (mark, cs') := by
  unfold radixMark? at marked
  split at marked
  · split at marked
    · rename_i letter
      obtain ⟨rfl, -⟩ := Prod.mk.inj (Option.some.inj marked)
      simp only [List.cons_append, List.nil_append, radixMark?, letter, if_true]
    · cases marked
  · cases marked

theorem radixUnmarked {cs behind : List Char} (unmarked : radixMark? (cs ++ behind) = none) :
    radixMark? cs = none := by
  unfold radixMark?
  split
  · rename_i c cs
    split
    · rename_i letter
      simp [radixMark?, letter] at unmarked
    · rfl
  · rfl

/- How a number is put together, where `rest` follows it. -/
inductive Numeral : (piece rest : List Char) → Prop where
  | radix {mark digits suffix rest}
      (marked : radixMark? (mark ++ (digits ++ (suffix ++ rest))) = some (mark, digits ++ (suffix ++ rest)))
      (run : takeRun (fun c => isHexDigit c || c == '_') (digits ++ (suffix ++ rest)) = (digits, suffix ++ rest))
      (big : bigSuffix (suffix ++ rest) = (suffix, rest)) : Numeral (mark ++ (digits ++ suffix)) rest
  | decimal {whole part power suffix rest}
      (unmarked : radixMark? (whole ++ (part ++ (power ++ (suffix ++ rest)))) = none)
      (run : takeRun (fun c => isAsciiDigit c || c == '_') (whole ++ (part ++ (power ++ (suffix ++ rest)))) =
        (whole, part ++ (power ++ (suffix ++ rest))))
      (point : fraction (part ++ (power ++ (suffix ++ rest))) = (part, power ++ (suffix ++ rest)))
      (scaled : exponent (power ++ (suffix ++ rest)) = (power, suffix ++ rest))
      (big : bigSuffix (suffix ++ rest) = (suffix, rest)) :
      Numeral (whole ++ (part ++ (power ++ suffix))) rest

theorem numeralSplit {piece rest : List Char} (numeral : Numeral piece rest) :
    split (piece ++ rest) = (piece, rest) := by
  cases numeral with
  | radix marked run big =>
    simp only [split, List.append_assoc, marked, run, big]
  | decimal unmarked run point scaled big =>
    simp only [split, List.append_assoc, unmarked, run, point, scaled, big]

theorem splitNumeral (text : List Char) : Numeral (split text).1 (split text).2 := by
  cases marked : radixMark? text with
  | some m =>
    obtain ⟨mark, after⟩ := m
    have whole := radixMarkAppend marked
    have run := takeRunAppend (fun c => isHexDigit c || c == '_') after
    have big := bigSuffixAppend (takeRun (fun c => isHexDigit c || c == '_') after).2
    simp only [split, marked, List.append_assoc]
    apply Numeral.radix
    all_goals simp only [big, run, whole, marked]
  | none =>
    have run := takeRunAppend (fun c => isAsciiDigit c || c == '_') text
    generalize digits : takeRun (fun c => isAsciiDigit c || c == '_') text = whole at run
    have point := fractionAppend whole.2
    have scaled := exponentAppend (fraction whole.2).2
    have big := bigSuffixAppend (exponent (fraction whole.2).2).2
    simp only [split, marked, digits, List.append_assoc]
    apply Numeral.decimal
    all_goals simp only [big, scaled, point, run, marked, digits]

/- A number is the same number where nothing follows it. -/
theorem numeralAlone {piece rest : List Char} (numeral : Numeral piece rest) : Numeral piece [] := by
  cases numeral with
  | @radix mark digits suffix _ marked run big =>
    have big' := bigSuffixEnds suffix [] rest big
    have run' := takeRunEnds _ digits suffix rest run
    rw [← List.append_nil suffix] at run'
    exact .radix (radixMarked marked _) run' big'
  | @decimal whole part power suffix _ unmarked run point scaled big =>
    have big' := bigSuffixEnds suffix [] rest big
    have scaled' := exponentEnds power suffix rest scaled
    have point' := fractionEnds part (power ++ suffix) rest (by simpa using point)
    have run' := takeRunEnds _ whole (part ++ (power ++ suffix)) rest (by simpa using run)
    have unmarked' := @radixUnmarked (whole ++ (part ++ (power ++ suffix))) rest (by simpa using unmarked)
    rw [← List.append_nil suffix] at scaled' point' run' unmarked'
    exact .decimal unmarked' run' point' scaled' big'

theorem splitAlone {piece rest : List Char} (read : split (piece ++ rest) = (piece, rest)) :
    split piece = (piece, []) := by
  have numeral := splitNumeral (piece ++ rest)
  rw [read] at numeral
  simpa using numeralSplit (numeralAlone numeral)

end Number

/- A point alone is no number, so that the digit behind it is part of the number. -/
theorem startsAlone {c : Char} {cs rest : List Char} (begins : Lexeme.startsNumber (c :: cs ++ rest) = true)
    (run : Number.split (c :: cs) = (c :: cs, [])) : Lexeme.startsNumber (c :: cs) = true := by
  by_cases point : c = '.'
  · subst point
    cases cs with
    | nil => exact absurd run (by decide)
    | cons d cs => exact begins
  · rw [startsDigit point]
    exact (startsDigit point _).symm.trans begins

/- Each piece is the same token where nothing follows it. -/
theorem lexedAlone {piece value rest : List Char} {kind : TokenKind} (lexed : Lexed piece kind value rest) :
    Lexed piece kind value [] := by
  cases lexed with
  | @word c cs rest starts run =>
    refine .word starts ?_
    have alone := Number.takeRunEnds isWordPart (c :: cs) [] rest run
    simpa using alone
  | number begins run =>
    have alone := Number.splitAlone run
    exact .number (by simpa using startsAlone begins alone) (by simpa using alone)
  | string quotes closes => exact .string quotes closes
  | template closes => exact .template closes
  | @punct p rest => cases p <;> exact .punct rfl rfl rfl

/- So it is before a character that separates. -/
theorem lexedBefore {b : Char} (apart : separates b = true) {piece value : List Char} {kind : TokenKind}
    (lexed : Lexed piece kind value []) (r : List Char) : Lexed piece kind value (b :: r) :=
  (lexedBehind apart (x := [])).mpr lexed

/-! ### The source texts of tokens -/

namespace Scan
variable {offset : Nat} {text whole before : List Char}

theorem nextSlice {g piece value rest : List Char} {kind : TokenKind} (gap : Gap .between g .between)
    (lexed : Lexed piece kind value rest) (offset : Nat) :
    let s := next offset (g ++ (piece ++ rest))
    s.token.start = offset + byteLength g ∧ s.token.stop = s.token.start + byteLength piece := by
  obtain ⟨c, cs, split, solid, read⟩ := lexedRead lexed
  obtain ⟨mode, offset', same, skipped⟩ := gapSkip gap .between false offset (c :: cs) rfl
  obtain ⟨gap', cut⟩ := Trivia.skipCut .between false offset (g ++ (c :: cs))
  obtain ⟨piece', _, cut'⟩ := Lexeme.readCut offset' c cs
  obtain ⟨stop, read⟩ := read offset'
  cases mode with
  | between =>
    rw [Trivia.skipSolid solid] at skipped
    rw [skipped] at cut
    rw [read] at cut'
    obtain rfl : gap' = g := List.append_cancel_right cut.1
    obtain rfl : piece' = piece := List.append_cancel_right (cut'.1.trans split.symm)
    simp only [next, split, skipped, afterGap, read]
    exact ⟨cut.2, cut'.2⟩
  | lineComment | blockComment => cases same

theorem allSome (offset : Nat) (text : List Char) : all offset text ≠ [] := by
  rw [all]
  dsimp only
  split <;> exact List.cons_ne_nil _ _

/- The tokens before the end token cover the pieces of a text without faults. -/
theorem allPieces (split : before ++ text = whole) (reached : byteLength before = offset)
    (fine : ∀ s ∈ all offset text, s.error? = none) :
    ∃ pieces : List Piece, Shows (all offset text) pieces ∧
      ((all offset text).map (·.token)).dropLast.mapM (fun t => slice? whole t.start t.stop) =
        some (pieces.map (·.text)) ∧
      ∀ p ∈ pieces, Lexed p.text p.kind p.value [] := by
  fun_induction all offset text generalizing before with
  | case1 offset text s =>
    rename_i ends
    rcases nextPieces offset text (fine _ List.mem_cons_self) with ⟨m, gap, closed⟩ | ⟨more, _⟩
    · obtain ⟨same, _⟩ := nextEnd gap closed offset
      have kind := congrArg Lex.kind same
      have value := congrArg Lex.value same
      exact ⟨[], ⟨congrArg (fun t => [t]) (Prod.ext kind value), fine⟩, rfl, List.forall_mem_nil _⟩
    · exact absurd (more.symm.trans ends) Bool.false_ne_true
  | case2 offset text s =>
    rename_i more _ ih
    obtain ⟨first, others⟩ := List.forall_mem_cons.mp fine
    rcases nextPieces offset text first with ⟨m, gap, closed⟩ | ⟨_, g, piece, kind, value, cut, gap, lexed⟩
    · exact absurd (beq_iff_eq.mpr (congrArg Lex.kind (nextEnd gap closed offset).1)) more
    · have token := nextToken gap lexed offset
      have slice := nextSlice gap lexed offset
      rw [← cut] at token slice
      obtain ⟨same, _, left⟩ := token
      obtain ⟨starts, stops⟩ := slice
      have there : (before ++ g) ++ (piece ++ s.rest) = whole := by
        rw [List.append_assoc, ← cut, split]
      have stop : byteLength (before ++ g ++ piece) = s.token.stop := by
        rw [byteLengthAppend, byteLengthAppend, reached, ← starts, ← stops]
      have own := sliceCut there
      rw [stop, byteLengthAppend, reached, ← starts] at own
      obtain ⟨pieces, ⟨shown, fines⟩, slices, alone⟩ :=
        ih (by rw [List.append_assoc]; exact there) stop others
      refine ⟨⟨piece, kind, value⟩ :: pieces, ⟨?_, fine⟩, ?_, ?_⟩
      · exact congrArg₂ _ (Prod.ext (congrArg Lex.kind same) (congrArg Lex.value same)) shown
      · rw [List.map_cons, List.dropLast_cons_of_ne_nil (by simpa using allSome _ _), List.mapM_cons, own, slices]
        rfl
      · exact List.forall_mem_cons.mpr ⟨lexedAlone lexed, alone⟩

end Scan

/-! ### Pieces in a row -/

/- Texts in a row, each behind what stands before it. -/
def inRow (before : Nat → List Char) (texts : List (List Char)) : List Char :=
  (texts.mapIdx fun n text => before n ++ text).flatten

/- Texts with separators between them. -/
def spaced (separator : Nat → List Char) (texts : List (List Char)) : List Char :=
  inRow (fun | 0 => [] | n + 1 => separator n) texts

theorem inRowCons (before : Nat → List Char) (text : List Char) (texts : List (List Char)) :
    inRow before (text :: texts) = before 0 ++ (text ++ inRow (fun n => before (n + 1)) texts) := by
  rw [inRow, List.mapIdx_cons, List.flatten_cons, List.append_assoc]
  rfl

theorem rowTokens (pieces : List Piece) (before : Nat → List Char)
    (alone : ∀ p ∈ pieces, Lexed p.text p.kind p.value [])
    (blank : ∀ n, ∀ c ∈ before n, isSpace c = true) (apart : ∀ n, before (n + 1) ≠ []) :
    Tokens [] .start (inRow before (pieces.map (·.text)))
      (pieces.mapIdx fun n p => (p, (before n).any isLineBreak)) .start := by
  induction pieces generalizing before with
  | nil => exact .gap (s := .start) (m := .between) .nil
  | cons p pieces ih =>
    obtain ⟨first, others⟩ := List.forall_mem_cons.mp alone
    have more := ih (fun n => before (n + 1)) others (fun n => blank (n + 1)) (fun n => apart (n + 1))
    rw [List.map_cons, inRowCons, List.mapIdx_cons]
    refine .token (s := .start) (Gap.spaces (blank 0)) ?_ more
    rw [List.append_nil]
    cases pieces with
    | nil => exact first
    | cons q pieces =>
      rw [List.map_cons, inRowCons]
      obtain ⟨b, r, some⟩ := List.exists_cons_of_ne_nil (apart 0)
      rw [some]
      exact lexedBefore (by simp [separates, blank 1 b (some ▸ List.mem_cons_self)]) first _

/- The source texts of the tokens, with blanks and line ends between them, are scanned as the same tokens.
A line is begun exactly where the separator has its end. -/
theorem spacingKeeps (text : List Char) (separator : Nat → List Char)
    (fine : ∀ s ∈ Scan.ofText text, s.error? = none)
    (wide : ∀ n, separator n ≠ []) (blank : ∀ n, ∀ c ∈ separator n, isSpace c = true) :
    ∃ texts, ((Scan.ofText text).map (·.token)).dropLast.mapM (fun t => slice? text t.start t.stop) =
        some texts ∧
      let scans := Scan.ofText (spaced separator texts)
      scans.map (fun s => (s.token.kind, s.token.value)) =
        (Scan.ofText text).map (fun s => (s.token.kind, s.token.value)) ∧
      (∀ s ∈ scans, s.error? = none) ∧
      ∀ n, n + 1 < texts.length →
        scans[n + 1]?.map (·.token.afterLineBreak) = some ((separator n).any isLineBreak) := by
  obtain ⟨pieces, ⟨shown, _⟩, slices, alone⟩ := @Scan.allPieces 0 text text [] rfl rfl fine
  have tokens := rowTokens pieces (fun | 0 => [] | n + 1 => separator n) alone
    (by rintro (_ | n); exacts [nofun, blank n]) wide
  obtain ⟨lexes, fines⟩ := Scan.tokensClean tokens rfl nofun 0
  refine ⟨pieces.map Piece.text, slices, ?_, fines, fun n inside => ?_⟩
  · have same := congrArg (List.map fun l : Lex => (l.kind, l.value)) lexes
    rw [List.map_map] at same
    refine same.trans (Eq.trans ?_ shown.symm)
    rw [List.map_append, List.map_map]
    refine congrArg (· ++ _) (List.ext_getElem? fun n => ?_)
    simp only [List.getElem?_map, List.getElem?_mapIdx, Option.map_map]
    rfl
  · rw [List.length_map] at inside
    have there : ((Scan.ofText (spaced separator (pieces.map Piece.text))).map (·.token.lex))[n + 1]? = _ :=
      congrArg (·[n + 1]?) lexes
    rw [List.getElem?_append_left (by simpa using inside)] at there
    have broken := congrArg (Option.map Lex.broken) there
    simpa [inside, Piece.lex, Token.lex, Function.comp_def] using broken

/- A sign and a number that would be read otherwise side by side, and a template with a line end, each of
them put on a line of its own. -/
theorem spacingKeepsLines :
    let text := "a?.5:\x60\n\x60".toList
    let separator (_ : Nat) := ['\n', ' ']
    (∀ s ∈ Scan.ofText text, s.error? = none) ∧ (∀ n, separator n ≠ []) ∧
    (∀ n, ∀ c ∈ separator n, isSpace c = true) ∧
    ∃ texts, ((Scan.ofText text).map (·.token)).dropLast.mapM (fun t => slice? text t.start t.stop) =
        some texts ∧
      let scans := Scan.ofText (spaced separator texts)
      scans.map (fun s => (s.token.kind, s.token.value)) =
        (Scan.ofText text).map (fun s => (s.token.kind, s.token.value)) ∧
      (∀ s ∈ scans, s.error? = none) ∧
      ∀ n, n + 1 < texts.length →
        scans[n + 1]?.map (·.token.afterLineBreak) = some ((separator n).any isLineBreak) := by
  intro text separator
  have fine : ∀ s ∈ Scan.ofText text, s.error? = none := by decide +kernel
  have wide (n : Nat) : separator n ≠ [] := List.cons_ne_nil _ _
  have blank : ∀ c ∈ ['\n', ' '], isSpace c = true :=
    List.forall_mem_cons.mpr ⟨rfl, List.forall_mem_singleton.mpr rfl⟩
  exact ⟨fine, wide, fun _ => blank, spacingKeeps text separator fine wide fun _ => blank⟩

end CallGuard
