import CallGuard.Token.Scan
import Mathlib.Tactic.ByContra

/-! Some characters end every token that stands before them: blanks, line ends and the signs that
make up a token alone and nothing else. What is read before such a character is what would be read
at the end of a text. -/
namespace CallGuard

/-! ### Which characters are which -/

/- Every character that is a blank or ends a line. -/
def spaces : List CodeRange := wideBlanks ++ [(0x09, 0x0D), (0x20, 0x20), (0xFEFF, 0xFEFF)]

theorem alphabeticWide : ∀ r ∈ Alphabetic.ranges, 0x7F < r.1 := by decide +kernel

theorem alphabeticApart : ∀ r ∈ Alphabetic.ranges, ∀ s ∈ spaces, r.2 < s.1 ∨ s.2 < r.1 := by
  decide +kernel

theorem numericApart : ∀ r ∈ Numeric.ranges, ∀ s ∈ spaces, r.2 < s.1 ∨ s.2 < r.1 := by
  decide +kernel

theorem asciiApart : ∀ s ∈ spaces, s.2 < 0x24 ∨ 0x7F < s.1 := by decide

theorem charLe {a b : Char} : a ≤ b ↔ a.toNat ≤ b.toNat := by
  rw [Char.le_def, UInt32.le_iff_toNat_le]
  rfl

theorem wordStartCode {c : Char} (starts : isWordStart c = true) :
    (c.toNat = 0x24 ∨ 0x40 < c.toNat ∧ c.toNat < 0x7B) ∨
      ∃ r ∈ Alphabetic.ranges, r.1 ≤ c.toNat ∧ c.toNat ≤ r.2 := by
  simp only [isWordStart, isAsciiLetter, Bool.or_eq_true, Bool.and_eq_true, decide_eq_true_eq,
    beq_iff_eq, CodeRange.anyContainsIff, charLe] at starts
  rcases starts with ((⟨lo, hi⟩ | ⟨lo, hi⟩) | rfl | rfl) | wide
  · have := show 'a'.toNat = 97 from rfl
    have := show 'z'.toNat = 122 from rfl
    exact .inl (.inr (by omega))
  · have := show 'A'.toNat = 65 from rfl
    have := show 'Z'.toNat = 90 from rfl
    exact .inl (.inr (by omega))
  · exact .inl (.inr (by decide))
  · exact .inl (.inl rfl)
  · exact .inr wide

theorem digitCode {c : Char} (digit : isAsciiDigit c = true) : 0x30 ≤ c.toNat ∧ c.toNat ≤ 0x39 := by
  simp only [isAsciiDigit, Bool.and_eq_true, decide_eq_true_eq, charLe] at digit
  exact digit

def isSpace (c : Char) : Bool := isLineBreak c || isBlank c

theorem spaceCode {c : Char} (space : isSpace c = true) : ∃ s ∈ spaces, s.1 ≤ c.toNat ∧ c.toNat ≤ s.2 := by
  have wide {s : CodeRange} (member : s ∈ wideBlanks) : s ∈ spaces := List.mem_append_left _ member
  simp only [isSpace, isLineBreak, isBlank, Bool.or_eq_true, beq_iff_eq, Bool.and_eq_true,
    CodeRange.anyContainsIff] at space
  rcases space with (((rfl | rfl) | rfl) | rfl) |
    ((((((rfl | rfl) | rfl) | rfl) | rfl) | rfl) | ⟨⟨s, member, inside⟩, -⟩)
  all_goals first
    | exact ⟨s, wide member, inside⟩
    | decide

theorem spaceWide {c : Char} (space : isSpace c = true) : c.toNat < 0x24 ∨ 0x7F < c.toNat := by
  obtain ⟨s, member, lo, hi⟩ := spaceCode space
  have := asciiApart s member
  omega

theorem spaceNoWord {c : Char} (space : isSpace c = true) : isWordPart c = false := by
  obtain ⟨s, member, lo, hi⟩ := spaceCode space
  have apart := asciiApart s member
  have start : ¬ isWordStart c = true := fun starts => by
    rcases wordStartCode starts with ascii | ⟨r, letter, lo', hi'⟩
    · omega
    · have := alphabeticApart r letter s member
      omega
  have digit : ¬ isAsciiDigit c = true := fun digit => by
    have := digitCode digit
    omega
  have number : ¬ CodeRange.anyContains Numeric.ranges c = true := fun number => by
    obtain ⟨r, listed, lo', hi'⟩ := CodeRange.anyContainsIff.mp number
    have := numericApart r listed s member
    omega
  simp [isWordPart, start, digit, number]

theorem wordStartUnspaced {c : Char} (starts : isWordStart c = true) : isSpace c = false := by
  by_contra space
  have part := wordStartPart starts
  rw [spaceNoWord (by simpa using space)] at part
  cases part

theorem digitPlain {c : Char} (digit : isAsciiDigit c = true) :
    isWordStart c = false ∧ isSpace c = false := by
  obtain ⟨lo, hi⟩ := digitCode digit
  constructor <;> by_contra other
  · rcases wordStartCode (by simpa using other) with ascii | ⟨r, letter, lo', _⟩
    · omega
    · have := alphabeticWide r letter
      omega
  · have := spaceWide (by simpa using other)
    omega

theorem hexWord {c : Char} (hex : isHexDigit c = true) : isWordPart c = true := by
  simp only [isHexDigit, Bool.or_eq_true, Bool.and_eq_true, decide_eq_true_eq] at hex
  rcases hex with (digit | ⟨lo, hi⟩) | ⟨lo, hi⟩
  · simp [isWordPart, digit]
  · have letter : c ≤ 'z' := Char.le_trans hi (by decide)
    simp [isWordPart, isWordStart, isAsciiLetter, lo, letter]
  · have letter : c ≤ 'Z' := Char.le_trans hi (by decide)
    simp [isWordPart, isWordStart, isAsciiLetter, lo, letter]

/-! ### Characters that separate -/

def signs : List Char := [';', '{', '}', '(', ')']

def separates (b : Char) : Bool := isSpace b || signs.contains b

section
variable {b : Char} (apart : separates b = true)
include apart

/- A character in ASCII that is neither a blank nor a sign is none that separates. -/
theorem separatesOther {c : Char} (code : 0x24 ≤ c.toNat ∧ c.toNat ≤ 0x7F)
    (other : signs.contains c = false) : b ≠ c := by
  rintro rfl
  rw [separates, other, Bool.or_false] at apart
  have := spaceWide apart
  omega

theorem separatesNoWord : isWordPart b = false := by
  rcases Bool.or_eq_true_iff.mp apart with space | sign
  · exact spaceNoWord space
  · simp only [signs, List.contains_iff_mem, List.mem_cons, List.not_mem_nil, or_false] at sign
    rcases sign with rfl | rfl | rfl | rfl | rfl <;> decide +kernel

theorem separatesNoDigit : isAsciiDigit b = false := by
  have part := separatesNoWord apart
  simp only [isWordPart, Bool.or_eq_false_iff] at part
  exact part.1.2

theorem separatesNoHex : isHexDigit b = false := by
  by_contra hex
  have part := hexWord (by simpa using hex)
  rw [separatesNoWord apart] at part
  cases part

end

/-! ### Numbers -/

namespace Number
variable {b : Char}

/- What is split off does not depend on what stands behind `b`. -/
def Stops (f : List Char → Split) (b : Char) : Prop :=
  ∀ cs rest, f (cs ++ b :: rest) = ((f cs).1, (f cs).2 ++ b :: rest)

theorem takeRunStops {p : Char → Bool} (stop : p b = false) : Stops (takeRun p) b := by
  intro cs rest
  induction cs with
  | nil => simp [takeRun, stop]
  | cons c cs ih =>
    cases goes : p c with
    | true => simpa [takeRun, goes] using ih
    | false => simp [takeRun, goes]

theorem fractionStops (point : b ≠ '.') (digit : isAsciiDigit b = false) : Stops fraction b := by
  intro cs rest
  match cs with
  | [] => simp [fraction, point]
  | [c] =>
    by_cases dot : c = '.'
    · subst dot
      simp [fraction, digit]
    · simp [fraction, dot]
  | c :: d :: cs =>
    by_cases dot : c = '.'
    · subst dot
      have run := takeRunStops digit (d :: cs) rest
      rw [List.cons_append] at run
      cases goes : isAsciiDigit d with
      | false => simp [fraction, goes]
      | true => simp [fraction, goes, run]
    · simp [fraction, dot]

theorem signStops (plus : b ≠ '+') (minus : b ≠ '-') : Stops sign b := by
  intro cs rest
  cases cs with
  | nil => simp [sign, plus, minus]
  | cons c cs =>
    by_cases up : c = '+'
    · subst up; rfl
    · by_cases down : c = '-'
      · subst down; rfl
      · simp [sign, up, down]

theorem exponentStops (mark : (b == 'e' || b == 'E') = false) (plus : b ≠ '+') (minus : b ≠ '-')
    (digit : isAsciiDigit b = false) : Stops exponent b := by
  intro cs rest
  cases cs with
  | nil => simp [exponent, mark]
  | cons c cs =>
    have after := signStops plus minus cs rest
    have run := takeRunStops digit (sign cs).2 rest
    rw [List.cons_append]
    unfold exponent
    simp only [after, run]
    split
    · split <;> simp
    · rfl

theorem bigSuffixStops (suffix : b ≠ 'n') : Stops bigSuffix b := by
  intro cs rest
  cases cs with
  | nil => simp [bigSuffix, suffix]
  | cons c cs =>
    by_cases big : c = 'n'
    · subst big; rfl
    · simp [bigSuffix, big]

theorem radixStops (zero : b ≠ '0')
    (mark : (b == 'x' || b == 'X' || b == 'b' || b == 'B' || b == 'o' || b == 'O') = false)
    (cs rest : List Char) :
    radixMark? (cs ++ b :: rest) = (radixMark? cs).map fun m => (m.1, m.2 ++ b :: rest) := by
  match cs with
  | [] => simp [radixMark?, zero]
  | [c] =>
    by_cases lead : c = '0'
    · subst lead
      simp [radixMark?, mark]
    · simp [radixMark?, lead]
  | c :: d :: cs =>
    by_cases lead : c = '0'
    · subst lead
      simp only [radixMark?, List.cons_append]
      split <;> rfl
    · simp [radixMark?, lead]

theorem splitStops (apart : separates b = true) : Stops split b := by
  have digit := separatesNoDigit apart
  have hex := separatesNoHex apart
  have other {c : Char} (code : 0x24 ≤ c.toNat ∧ c.toNat ≤ 0x7F)
      (plain : signs.contains c = false) : b ≠ c := separatesOther apart code plain
  have line : (b == '_') = false := by simpa using other (by decide) rfl
  have mark : (b == 'e' || b == 'E') = false := by
    simpa using And.intro (other (by decide) rfl) (other (by decide) rfl)
  have point : b ≠ '.' := other (by decide) rfl
  have plus : b ≠ '+' := other (by decide) rfl
  have minus : b ≠ '-' := other (by decide) rfl
  intro cs rest
  have whole := @takeRunStops b (fun c => isAsciiDigit c || c == '_') (by simp [digit, line])
  have hexes := @takeRunStops b (fun c => isHexDigit c || c == '_') (by simp [hex, line])
  have suffix := @bigSuffixStops b (other (by decide) rfl)
  unfold split
  rw [radixStops (other (by decide) rfl) (by
    simp only [Bool.or_eq_false_iff, beq_eq_false_iff_ne]
    exact ⟨⟨⟨⟨⟨other (by decide) rfl, other (by decide) rfl⟩, other (by decide) rfl⟩,
      other (by decide) rfl⟩, other (by decide) rfl⟩, other (by decide) rfl⟩)]
  cases radixMark? cs with
  | some m =>
    simp only [Option.map_some, hexes m.2 rest, suffix _ rest]
  | none =>
    simp only [Option.map_none, whole cs rest, fractionStops point digit _ rest,
      exponentStops mark plus minus digit _ rest, suffix _ rest]

end Number

/-! ### Punctuators -/

namespace Punctuator

/- The characters that punctuators are continued with. -/
def continuing : List Char := ['.', '?', '=', '>', '+', '-', '&', '|']

theorem startAlone (p : Punctuator) {d : Char} (plain : d ∉ continuing)
    (digit : p = .questionDot → isAsciiDigit d = false) (rest : List Char) :
    ofStart? (p.spelling.toList ++ d :: rest) = some p := by
  simp only [continuing, List.mem_cons, List.not_mem_nil, or_false, not_or] at plain
  cases p <;> simp [spelling, ofStart?, plain, digit]

theorem startStops (p : Punctuator) {b : Char} (plain : b ∉ continuing)
    (digit : isAsciiDigit b = false) (cs rest : List Char) :
    ofStart? (p.spelling.toList ++ (cs ++ b :: rest)) = some p ↔
      ofStart? (p.spelling.toList ++ cs) = some p := by
  cases cs with
  | nil =>
    refine iff_of_true (startAlone p plain (fun _ => digit) rest) ?_
    cases p <;> rfl
  | cons d cs =>
    by_cases other : d ∈ continuing
    · simp only [continuing, List.mem_cons, List.not_mem_nil, or_false, not_or] at other plain
      rcases other with rfl | rfl | rfl | rfl | rfl | rfl | rfl | rfl <;> cases p <;> first
        | exact iff_of_true rfl rfl
        | (constructor <;> intro found <;> cases found)
        | (cases cs with
          | nil => simp [spelling, ofStart?, plain, digit]
          | cons e cs =>
            first
            | exact Iff.rfl
            | (by_cases e = '=' <;> by_cases e = '.' <;> simp_all [spelling, ofStart?]))
    · by_cases question : p = .questionDot
      · subst question
        exact Iff.rfl
      · exact iff_of_true (startAlone p other (fun same => absurd same question) _)
          (startAlone p other (fun same => absurd same question) _)

theorem separatesPlain {b : Char} (apart : separates b = true) : b ∉ continuing := by
  simp only [continuing, List.mem_cons, List.not_mem_nil, or_false, not_or]
  exact ⟨separatesOther apart (by decide) rfl, separatesOther apart (by decide) rfl,
    separatesOther apart (by decide) rfl, separatesOther apart (by decide) rfl,
    separatesOther apart (by decide) rfl, separatesOther apart (by decide) rfl,
    separatesOther apart (by decide) rfl, separatesOther apart (by decide) rfl⟩

end Punctuator
end CallGuard
