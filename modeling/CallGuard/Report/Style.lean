import CallGuard.Text.Replace

/-! Text in colors, as terminals understand it. -/
namespace CallGuard

/-- A style by the numbers that switch it on. -/
structure Style where
  codes : String
  deriving DecidableEq, Repr

namespace Style

def red : Style := ⟨"31"⟩
def boldRed : Style := ⟨"1;31"⟩
def boldYellow : Style := ⟨"1;33"⟩
def boldBlue : Style := ⟨"1;34"⟩
def boldCyan : Style := ⟨"1;36"⟩
def brightBlue : Style := ⟨"94"⟩
def dimmed : Style := ⟨"2"⟩

def sequence (codes : String) : List Char := ['\x1b', '['] ++ codes.toList ++ ['m']

/-- What switches every style off. -/
def reset : List Char := sequence "0"

/-- The text in the style. Where the text switches styles off, this one goes on. -/
def apply (s : Style) (text : List Char) : List Char :=
  sequence s.codes ++ Text.replaceAll reset (reset ++ sequence s.codes) text ++ reset

/-- The text in the style, when colors are wanted. -/
def applyIf (colors : Bool) (s : Style) (text : List Char) : List Char :=
  if colors then s.apply text else text

end Style

end CallGuard
