import CallGuard.Text.Alphabetic
import CallGuard.Text.Numeric

/-! The character classes that separate words, blanks and line ends. ASCII is decided by listing;
other characters by the Unicode properties `Alphabetic`, number and `White_Space`. -/
namespace CallGuard

/-- The ends of a line. -/
def isLineBreak (c : Char) : Bool :=
  c == '\n' || c == '\r' || c == '\u2028' || c == '\u2029'

/-- Blanks outside ASCII, line ends included. -/
def wideBlanks : List CodeRange :=
  [(0x85, 0x85), (0xA0, 0xA0), (0x1680, 0x1680), (0x2000, 0x200A), (0x2028, 0x2029),
   (0x202F, 0x202F), (0x205F, 0x205F), (0x3000, 0x3000)]

/-- Blanks inside a line. A byte order mark counts as one wherever it stands. -/
def isBlank (c : Char) : Bool :=
  c == ' ' || c == '\t' || c == '\x0b' || c == '\x0c' || c == '\u00a0' || c == '\ufeff' ||
    (CodeRange.anyContains wideBlanks c && !isLineBreak c)

/-- Every character with the property `White_Space`, in ASCII and beyond. -/
def isUnicodeSpace (c : Char) : Bool :=
  (9 ≤ c.toNat && c.toNat ≤ 13) || c == ' ' || CodeRange.anyContains wideBlanks c

def isAsciiLetter (c : Char) : Bool :=
  ('a' ≤ c && c ≤ 'z') || ('A' ≤ c && c ≤ 'Z')

def isAsciiDigit (c : Char) : Bool := '0' ≤ c && c ≤ '9'

def isHexDigit (c : Char) : Bool :=
  isAsciiDigit c || ('a' ≤ c && c ≤ 'f') || ('A' ≤ c && c ≤ 'F')

/-- The characters a word may begin with. -/
def isWordStart (c : Char) : Bool :=
  isAsciiLetter c || c == '_' || c == '$' || CodeRange.anyContains Alphabetic.ranges c

/-- The characters a word may go on with. -/
def isWordPart (c : Char) : Bool :=
  isWordStart c || isAsciiDigit c || CodeRange.anyContains Numeric.ranges c

theorem wordStartPart {c : Char} (h : isWordStart c = true) : isWordPart c = true := by
  simp [isWordPart, h]

end CallGuard
