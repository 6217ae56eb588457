import CallGuard.Text.Position
import Mathlib.Algebra.Group.Nat.Defs
import Mathlib.Data.List.TakeWhile

/-! Offsets and positions. Each offset of a text stands in one line, the last that begins no later, and is
told by that line and the bytes in between; so offsets and positions are inverse to each other and in the
same order. Line feeds are counted in the bytes of the text, lines are its pieces between line feeds. -/
namespace CallGuard

namespace Text

/- The text in UTF-8. -/
def bytes (text : List Char) : List UInt8 := text.flatMap String.utf8EncodeChar

def lineFeed : UInt8 := 10

/- The lines of a text, without the line feeds that end them. -/
def lines (text : List Char) : List (List Char) := text.splitOn '\n'

theorem bytesCons (c : Char) (cs : List Char) : bytes (c :: cs) = String.utf8EncodeChar c ++ bytes cs := rfl

theorem charBytes (c : Char) : (String.utf8EncodeChar c).length = c.utf8Size :=
  String.length_utf8EncodeChar c

/- No other character has a byte that looks like a line feed. -/
theorem feedApart {c : Char} (other : c ≠ '\n') : lineFeed ∉ String.utf8EncodeChar c := by
  have code : c.val.toNat ≠ 10 := fun same => other (Char.ext (UInt32.toNat_inj.mp same))
  have byte (n : Nat) : lineFeed = UInt8.ofNat n ↔ n % 256 = 10 := by
    rw [← UInt8.toNat_inj, UInt8.toNat_ofNat']
    exact eq_comm
  unfold String.utf8EncodeChar
  dsimp only
  split_ifs <;> simp only [List.mem_cons, List.not_mem_nil, or_false, byte] <;> omega

theorem feedBytes : String.utf8EncodeChar '\n' = [lineFeed] := by decide

theorem feedWidth : '\n'.utf8Size = 1 := rfl

theorem linesFeed (cs : List Char) : lines ('\n' :: cs) = [] :: lines cs := by
  rw [lines, List.splitOn, List.splitOnP_cons_eq_if_modifyHead]
  rfl

theorem linesOther {c : Char} (other : c ≠ '\n') (cs : List Char) :
    lines (c :: cs) = (lines cs).modifyHead (c :: ·) := by
  rw [lines, List.splitOn, List.splitOnP_cons_eq_if_modifyHead, if_neg (by simpa using other)]
  rfl

end Text

theorem Position.trichotomy (p q : Position) : p.before q ∨ p = q ∨ q.before p := by
  obtain ⟨l, c⟩ := p
  obtain ⟨l', c'⟩ := q
  simp only [before, mk.injEq]
  omega

namespace LineMap
open Text

/- An offset in a line, so many bytes behind its beginning. -/
structure StandsAt (m : LineMap) (o : Nat) (p : Position) : Prop where
  behind : ∃ start, m.starts[p.line]? = some start ∧ o = start + p.character
  last : ∀ next, m.starts[p.line + 1]? = some next → o < next

/- What a search may answer: where the entry stands, or the place between all that is less and all that is
greater. -/
inductive Searched (row : Array Nat) (entry : Nat) : SearchAnswer → Prop
  | found {i : Nat} (here : row[i]? = some entry) : Searched row entry (.found i)
  | missing {i : Nat} (within : i ≤ row.size) (less : ∀ j s, row[j]? = some s → j < i → s < entry)
      (greater : ∀ j s, row[j]? = some s → i ≤ j → entry < s) : Searched row entry (.missing i)

def Ascends (row : Array Nat) : Prop := ∀ i j a b : Nat, row[i]? = some a → row[j]? = some b → i < j → a < b

/- All in front of the part that is searched is less, and all behind it is greater. -/
theorem searchedBetween {row : Array Nat} (ascends : Ascends row) {entry lo hi : Nat} (inside : hi ≤ row.size)
    (order : lo ≤ hi) (less : ∀ j s, row[j]? = some s → j < lo → s < entry)
    (greater : ∀ j s, row[j]? = some s → hi ≤ j → entry < s) :
    Searched row entry (searchBetween row entry lo hi inside) := by
  fun_induction searchBetween row entry lo hi inside with
  | case1 lo hi inside _ middle reached same =>
    exact .found (same ▸ Array.getElem?_eq_getElem reached)
  | case2 lo hi inside _ middle reached _ early ih =>
    refine ih (by omega) (fun j s held before => ?_) greater
    rcases Nat.eq_or_lt_of_le (Nat.le_of_lt_succ before) with rfl | further
    · rw [Array.getElem?_eq_getElem reached] at held
      exact Option.some.inj held ▸ early
    · exact Nat.lt_trans (ascends j middle s _ held (Array.getElem?_eq_getElem reached) further) early
  | case3 lo hi inside _ middle reached other early ih =>
    have late : entry < row[middle] := by omega
    refine ih (by omega) less fun j s held behind => ?_
    rcases Nat.eq_or_lt_of_le behind with rfl | further
    · rw [Array.getElem?_eq_getElem reached] at held
      exact Option.some.inj held ▸ late
    · exact Nat.lt_trans late (ascends middle j _ s (Array.getElem?_eq_getElem reached) held further)
  | case4 lo hi inside done =>
    obtain rfl : lo = hi := by omega
    exact .missing inside less greater

theorem searchedAll {m : LineMap} (ascends : Ascends m.starts) (o : Nat) : Searched m.starts o (m.search o) := by
  refine searchedBetween ascends (Nat.le_refl _) (Nat.zero_le _) (fun j s _ before => ?_) fun j s held behind => ?_
  · exact absurd before (Nat.not_lt_zero j)
  · rw [Array.getElem?_eq_none behind] at held
    cases held

section
variable {pos o : Nat} {text : List Char}

theorem startsFeed (pos : Nat) (cs : List Char) :
    startsAfterBreaks pos ('\n' :: cs) = (pos + 1) :: startsAfterBreaks (pos + 1) cs := rfl

theorem startsOther {c : Char} (other : c ≠ '\n') (pos : Nat) (cs : List Char) :
    startsAfterBreaks pos (c :: cs) = startsAfterBreaks (pos + c.utf8Size) cs := if_neg other

theorem startsLater (pos : Nat) (text : List Char) : ∀ s ∈ startsAfterBreaks pos text, pos < s := by
  induction text generalizing pos with
  | nil => exact fun s member => absurd member List.not_mem_nil
  | cons c cs ih =>
    intro s member
    by_cases feed : c = '\n'
    · subst feed
      rw [startsFeed] at member
      rcases List.mem_cons.mp member with rfl | member
      · exact Nat.lt_succ_self pos
      · exact Nat.lt_of_succ_lt (ih (pos + 1) s member)
    · rw [startsOther feed] at member
      exact Nat.lt_of_le_of_lt (Nat.le_add_right pos _) (ih _ s member)

theorem startsOrder (pos : Nat) (text : List Char) :
    (pos :: startsAfterBreaks pos text).Pairwise (· < ·) := by
  refine List.pairwise_cons.mpr ⟨startsLater pos text, ?_⟩
  induction text generalizing pos with
  | nil => exact .nil
  | cons c cs ih =>
    by_cases feed : c = '\n'
    · subst feed
      rw [startsFeed]
      exact List.pairwise_cons.mpr ⟨startsLater (pos + 1) cs, ih (pos + 1)⟩
    · rw [startsOther feed]
      exact ih _

/- As many lines begin up to a place as there are line feeds in front of it. -/
theorem startsCounted (pos o : Nat) (text : List Char) :
    ((startsAfterBreaks pos text).takeWhile (· ≤ pos + o)).length =
      ((bytes text).take o).count lineFeed := by
  induction text generalizing pos o with
  | nil => simp [startsAfterBreaks, bytes]
  | cons c cs ih =>
    rw [bytesCons, List.take_append, List.count_append, charBytes]
    by_cases feed : c = '\n'
    · subst feed
      cases o with
      | zero => simp [startsFeed]
      | succ o =>
        rw [show pos + (o + 1) = pos + 1 + o by omega, startsFeed,
          List.takeWhile_cons_of_pos (by simp), List.length_cons, ih, Nat.add_comm, feedBytes, feedWidth]
        simp
    · have none : ((String.utf8EncodeChar c).take o).count lineFeed = 0 :=
        List.count_eq_zero.mpr fun inside => feedApart feed (List.mem_of_mem_take inside)
      rw [startsOther feed, none, Nat.zero_add, ← ih]
      by_cases past : c.utf8Size ≤ o
      · rw [show pos + c.utf8Size + (o - c.utf8Size) = pos + o by omega]
      · -- The place is inside the character, before all that follows.
        have later := startsLater (pos + c.utf8Size) cs
        have nothing {n : Nat} (early : n ≤ pos + c.utf8Size) :
            (startsAfterBreaks (pos + c.utf8Size) cs).takeWhile (· ≤ n) = [] := by
          rw [List.takeWhile_eq_nil_iff]
          intro inside
          have := later _ (List.getElem_mem inside)
          simp
          omega
        rw [nothing (by omega), nothing (by omega)]

/- In an ascending row the last entry up to a place is at the end of all that are. -/
theorem lineCounted {starts : List Nat} (order : starts.Pairwise (· < ·)) {line start : Nat}
    (here : starts[line]? = some start) (reached : start ≤ o)
    (last : ∀ next, starts[line + 1]? = some next → o < next) :
    (starts.takeWhile (· ≤ o)).length = line + 1 := by
  induction starts generalizing line with
  | nil => simp at here
  | cons first starts ih =>
    obtain ⟨least, order⟩ := List.pairwise_cons.mp order
    cases line with
    | zero =>
      cases here
      rw [List.takeWhile_cons_of_pos (by simpa using reached)]
      cases starts with
      | nil => rfl
      | cons next starts =>
        have late : ¬ next ≤ o := Nat.not_le.mpr (last next rfl)
        rw [List.takeWhile_cons_of_neg (by simpa using late)]
        rfl
    | succ line =>
      have here : starts[line]? = some start := here
      have early : first < start := least start (List.mem_of_getElem? here)
      rw [List.takeWhile_cons_of_pos (by simp; omega), List.length_cons, ih order here last]

end

section
variable {text : List Char} {o a b : Nat} {p q : Position}

theorem startsListed (text : List Char) (i : Nat) :
    (ofText text).starts[i]? = (0 :: startsAfterBreaks 0 text)[i]? := List.getElem?_toArray

theorem startsAscend (text : List Char) : Ascends (ofText text).starts := by
  intro i j a b one two before
  rw [startsListed] at one two
  obtain ⟨insideA, rfl⟩ := List.getElem?_eq_some_iff.mp one
  obtain ⟨insideB, rfl⟩ := List.getElem?_eq_some_iff.mp two
  exact List.pairwise_iff_getElem.mp (startsOrder 0 text) i j insideA insideB before

/- Whichever of the two answers a search has, it leads to the line that the offset stands in; none comes before the
first line. -/
theorem searchedStands {answer : SearchAnswer} (searched : Searched (ofText text).starts o answer) :
    answer ≠ .missing 0 ∧
      (ofText text).StandsAt o ⟨lineOf answer, o - (ofText text).starts.getD (lineOf answer) 0⟩ := by
  have begun {line start : Nat} (here : (ofText text).starts[line]? = some start) :
      (ofText text).starts.getD line 0 = start := by
    rw [Array.getD_eq_getD_getElem?, here, Option.getD_some]
  cases searched with
  | @found line here =>
    refine ⟨nofun, ⟨o, here, ?_⟩, fun next behind => ?_⟩
    · show o = o + (o - (ofText text).starts.getD line 0)
      rw [begun here, Nat.sub_self, Nat.add_zero]
    · exact startsAscend text line (line + 1) o next here behind (Nat.lt_succ_self line)
  | @missing next within less greater =>
    cases next with
    | zero => exact absurd (greater 0 0 (startsListed text 0) (Nat.le_refl 0)) (Nat.not_lt_zero o)
    | succ line =>
      have here := Array.getElem?_eq_getElem within
      have early := less line _ here (Nat.lt_succ_self line)
      refine ⟨nofun, ⟨_, here, ?_⟩, fun next behind => greater (line + 1) next behind (Nat.le_refl _)⟩
      rw [lineOf, Nat.add_sub_cancel, begun here, Nat.add_sub_of_le (Nat.le_of_lt early)]

theorem positionStands (inside : o ≤ byteLength text) :
    (ofText text).StandsAt o ((ofText text).positionOf o) := by
  have cut : min o (ofText text).length = o := Nat.min_eq_left inside
  unfold positionOf
  rw [cut]
  exact (searchedStands (searchedAll (startsAscend text) o)).2

/- A line ends before the next one begins. -/
theorem standsBefore (one : (ofText text).StandsAt a p) (two : (ofText text).StandsAt b q)
    (before : p.before q) : a < b := by
  obtain ⟨⟨start, here, rfl⟩, last⟩ := one
  obtain ⟨⟨start', here', rfl⟩, _⟩ := two
  rcases before with above | ⟨same, left⟩
  · rcases Nat.eq_or_lt_of_le above with at' | further
    · have := last start' ((congrArg _ at').trans here')
      omega
    · obtain ⟨inside, _⟩ := Array.getElem?_eq_some_iff.mp here'
      have next := Array.getElem?_eq_getElem (Nat.lt_trans further inside)
      have ends := last _ next
      have ascends := startsAscend text _ _ _ _ next here' further
      omega
  · rw [same, here'] at here
    cases here
    omega

theorem standsOnce (one : (ofText text).StandsAt o p) (two : (ofText text).StandsAt o q) : p = q := by
  rcases p.trichotomy q with less | same | greater
  · exact absurd (standsBefore one two less) (Nat.lt_irrefl o)
  · exact same
  · exact absurd (standsBefore two one greater) (Nat.lt_irrefl o)

theorem standsPosition (inside : o ≤ byteLength text) (stands : (ofText text).StandsAt o p) :
    (ofText text).positionOf o = p := standsOnce (positionStands inside) stands

/- So many line feeds come before it as lines. -/
theorem lineFeeds (stands : (ofText text).StandsAt o p) : p.line = ((bytes text).take o).count lineFeed := by
  obtain ⟨⟨start, here, same⟩, last⟩ := stands
  rw [startsListed] at here
  have last : ∀ next, (0 :: startsAfterBreaks 0 text)[p.line + 1]? = some next → o < next :=
    fun next held => last next ((startsListed text _).trans held)
  have counted := lineCounted (startsOrder 0 text) here (by omega) last
  rw [List.takeWhile_cons_of_pos (by simp), List.length_cons, Nat.add_right_cancel_iff] at counted
  rw [← counted, ← startsCounted 0 o text, Nat.zero_add]

theorem standsOffset (inside : o ≤ byteLength text) (short : byteLength text ≤ Offset.max)
    (stands : (ofText text).StandsAt o p) : (ofText text).offsetOf? p = some o := by
  obtain ⟨⟨start, here, rfl⟩, _⟩ := stands
  have cut : min (start + p.character) (ofText text).length = start + p.character := Nat.min_eq_left inside
  rw [offsetOf?, here]
  dsimp only
  rw [Offset.add?, if_pos (Nat.le_trans inside short), Option.map_some, cut]

theorem standsOrder (one : (ofText text).StandsAt a p) (two : (ofText text).StandsAt b q) :
    a < b ↔ p.before q := by
  refine ⟨fun less => ?_, standsBefore one two⟩
  rcases p.trichotomy q with before | rfl | after
  · exact before
  · obtain ⟨⟨start, here, rfl⟩, _⟩ := one
    obtain ⟨⟨start', here', rfl⟩, _⟩ := two
    rw [here] at here'
    cases here'
    exact absurd less (Nat.lt_irrefl _)
  · exact absurd (standsBefore two one after) (Nat.lt_asymm less)

/- Each line begins where the map says, and the next one behind its line feed. -/
theorem lineBegins (pos : Nat) (text : List Char) {l : Nat} {line : List Char}
    (held : (lines text)[l]? = some line) :
    ∃ start, (pos :: startsAfterBreaks pos text)[l]? = some start ∧
      start + byteLength line ≤ pos + byteLength text ∧
      ∀ next, (pos :: startsAfterBreaks pos text)[l + 1]? = some next → start + byteLength line < next := by
  induction text generalizing pos l line with
  | nil =>
    cases l with
    | zero =>
      cases held
      exact ⟨pos, rfl, Nat.le_refl _, nofun⟩
    | succ l => cases held
  | cons c cs ih =>
    by_cases feed : c = '\n'
    · subst feed
      rw [linesFeed] at held
      rw [startsFeed]
      cases l with
      | zero =>
        cases held
        exact ⟨pos, rfl, Nat.le_add_right _ _, fun next same => by cases same; exact Nat.lt_succ_self pos⟩
      | succ l =>
        obtain ⟨start, here, fits, last⟩ := ih (pos + 1) held
        exact ⟨start, here, by rw [byteLength, feedWidth]; omega, last⟩
    · rw [linesOther feed] at held
      rw [startsOther feed]
      cases l with
      | zero =>
        rw [List.getElem?_modifyHead_zero] at held
        obtain ⟨part, first, rfl⟩ := Option.map_eq_some_iff.mp held
        obtain ⟨start, here, fits, last⟩ := ih (pos + c.utf8Size) first
        cases here
        simp only [byteLength, ← Nat.add_assoc]
        exact ⟨pos, rfl, fits, last⟩
      | succ l =>
        rw [List.getElem?_modifyHead_succ] at held
        obtain ⟨start, here, fits, last⟩ := ih (pos + c.utf8Size) held
        exact ⟨start, here, by simpa [byteLength, Nat.add_assoc] using fits, last⟩

theorem lineStands {l c : Nat} {line : List Char} (held : (lines text)[l]? = some line)
    (within : c ≤ byteLength line) : ∃ o ≤ byteLength text, (ofText text).StandsAt o ⟨l, c⟩ := by
  obtain ⟨start, here, fits, last⟩ := lineBegins 0 text held
  refine ⟨start + c, by omega, ⟨start, (startsListed text l).trans here, rfl⟩, fun next same => ?_⟩
  have := last next ((startsListed text (l + 1)).symm.trans same)
  show start + c < next
  omega

end

theorem positionsInverse (text : List Char) (short : byteLength text < 2 ^ 32) :
    let m := ofText text
    (∀ o ≤ byteLength text, (m.positionOf o).line = ((bytes text).take o).count lineFeed ∧
      m.offsetOf? (m.positionOf o) = some o) ∧
    (∀ a ≤ byteLength text, ∀ b ≤ byteLength text,
      a < b ↔ (m.positionOf a).before (m.positionOf b)) ∧
    (∀ l line c, (lines text)[l]? = some line → c ≤ byteLength line →
      (m.offsetOf? ⟨l, c⟩).map m.positionOf = some ⟨l, c⟩) ∧
    (∀ o ≥ byteLength text, m.positionOf o = m.positionOf (byteLength text)) ∧
    ∀ o, m.search o ≠ .missing 0 := by
  intro m
  have fits : byteLength text ≤ Offset.max := Nat.le_of_lt_succ short
  refine ⟨fun o inside => ⟨lineFeeds (positionStands inside), standsOffset inside fits (positionStands inside)⟩,
    fun a insideA b insideB => standsOrder (positionStands insideA) (positionStands insideB),
    fun l line c held within => ?_, fun o past => ?_, fun o => ?_⟩
  · obtain ⟨o, inside, stands⟩ := lineStands held within
    rw [standsOffset inside fits stands, Option.map_some, standsPosition inside stands]
  · have cut : min o m.length = min (byteLength text) m.length :=
      (Nat.min_eq_right past).trans (Nat.min_self _).symm
    unfold positionOf
    rw [cut]
  · exact (searchedStands (searchedAll (startsAscend text) o)).1

/- Two empty lines, a character of two bytes and a line feed at the end. -/
theorem positionsInverseFeeds :
    let text := "é\n\n\nab\n".toList
    byteLength text < 2 ^ 32 ∧
      (((ofText text).positionOf 6).line = ((bytes text).take 6).count lineFeed ∧
        (ofText text).offsetOf? ((ofText text).positionOf 6) = some 6) ∧
      (5 < 6 ↔ ((ofText text).positionOf 5).before ((ofText text).positionOf 6)) ∧
      ((lines text)[4]? = some [] ∧ ((ofText text).offsetOf? ⟨4, 0⟩).map (ofText text).positionOf = some ⟨4, 0⟩) ∧
      (ofText text).positionOf 99 = (ofText text).positionOf (byteLength text) ∧
      (ofText text).search 1 ≠ .missing 0 := by
  intro text
  have short : byteLength text < 2 ^ 32 := by decide
  have held : (lines text)[4]? = some [] := by decide
  obtain ⟨offsets, order, positions, past, found⟩ := positionsInverse text short
  exact ⟨short, offsets 6 (by decide), order 5 (by decide) 6 (by decide),
    ⟨held, positions 4 [] 0 held (Nat.zero_le _)⟩, past 99 (by decide), found 1⟩

end LineMap
end CallGuard
