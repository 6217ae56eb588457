import CallGuard.Proofs.Token.Pieces

/-! What a template stands for. Its body is a row of characters, escapes and substitutions, and a substitution
is a row of characters, escapes and groups in braces. Characters count outside substitutions only; an escape
counts wherever it stands, so that a value tells nothing of its substitutions exactly where they hold no
escape but those of line ends. -/
namespace CallGuard.Quoted

/- A backslash with what stands behind it: one character, or the two of a line end. -/
inductive Escape
  | lineEnd
  | char (c : Char)

namespace Escape

def text : Escape → List Char
  | lineEnd => ['\\', '\r', '\n']
  | char c => ['\\', c]

def value : Escape → List Char
  | lineEnd => []
  | char c => cook c

/- What stands behind it is no part of it. -/
def Single : Escape → (behind : List Char) → Prop
  | lineEnd, _ => True
  | char c, behind => ¬ (c = '\r' ∧ behind.head? = some '\n')

end Escape

/- What stands between the braces of a substitution. -/
inductive Inside
  | nil
  | plain (c : Char) (more : Inside)
  | escape (e : Escape) (more : Inside)
  | group (inner more : Inside)

namespace Inside

def text : Inside → List Char
  | nil => []
  | plain c more => c :: more.text
  | escape e more => e.text ++ more.text
  | group inner more => '\x7b' :: (inner.text ++ '\x7d' :: more.text)

/- What the escapes stand for. -/
def escaped : Inside → List Char
  | nil => []
  | plain _ more => more.escaped
  | escape e more => e.value ++ more.escaped
  | group inner more => inner.escaped ++ more.escaped

def Fits : Inside → Prop
  | nil => True
  | plain c more => c ≠ '\\' ∧ (c ≠ '\x7b' ∧ c ≠ '\x7d') ∧ more.Fits
  | escape e more => e.Single more.text ∧ more.Fits
  | group inner more => inner.Fits ∧ more.Fits

end Inside

/- What stands between the marks of a template. -/
inductive Body
  | nil
  | plain (c : Char) (more : Body)
  | escape (e : Escape) (more : Body)
  | hole (inside : Inside) (more : Body)

namespace Body

def text : Body → List Char
  | nil => []
  | plain c more => c :: more.text
  | escape e more => e.text ++ more.text
  | hole inside more => '$' :: '\x7b' :: (inside.text ++ '\x7d' :: more.text)

def value : Body → List Char
  | nil => []
  | plain c more => c :: more.value
  | escape e more => e.value ++ more.value
  | hole inside more => inside.escaped ++ more.value

def Fits : Body → Prop
  | nil => True
  | plain c more =>
    c ≠ '\x60' ∧ c ≠ '\\' ∧ ¬ (c = '$' ∧ more.text.head? = some '\x7b') ∧ more.Fits
  | escape e more => e.Single more.text ∧ more.Fits
  | hole inside more => inside.Fits ∧ more.Fits

/- The same template with empty substitutions. -/
def bare : Body → Body
  | nil => nil
  | plain c more => plain c more.bare
  | escape e more => escape e more.bare
  | hole _ more => hole .nil more.bare

/- What the escapes in all substitutions stand for. -/
def hidden : Body → List Char
  | nil => []
  | plain _ more => more.hidden
  | escape _ more => more.hidden
  | hole inside more => inside.escaped ++ more.hidden

end Body

/-! ### Bodies are what the reader closes -/

section
variable {depth : Nat} {behind front tail value : List Char} {c d : Char} {e : Escape}

theorem headBefore (other : c ≠ d) : (front ++ d :: tail).head? = some c ↔ front.head? = some c := by
  cases front with
  | nil => simp [other.symm]
  | cons => rfl

theorem singleBefore (other : '\n' ≠ d) : e.Single (front ++ d :: tail) ↔ e.Single front := by
  cases e with
  | lineEnd => rfl
  | char c => rw [Escape.Single, Escape.Single, headBefore other]

theorem closingEscape (single : e.Single tail) (closing : Closing depth tail value) :
    Closing depth (e.text ++ tail) (e.value ++ value) := by
  cases e with
  | lineEnd => exact .lineEnd closing
  | char c => exact .escape single closing

theorem closingInside (inside : Inside) (fits : inside.Fits) (closing : Closing depth tail value) :
    Closing (depth + 1) (inside.text ++ '\x7d' :: tail) (inside.escaped ++ value) := by
  induction inside generalizing depth tail value with
  | nil => exact .leaves closing
  | plain c more ih =>
    obtain ⟨solid, flat, fits⟩ := fits
    exact .inside solid flat (ih fits closing)
  | escape e more ih =>
    obtain ⟨single, fits⟩ := fits
    simp only [Inside.text, Inside.escaped, List.append_assoc]
    exact closingEscape ((singleBefore (by decide)).mpr single) (ih fits closing)
  | group inner more ihInner ihMore =>
    obtain ⟨inner', fits⟩ := fits
    simp only [Inside.text, Inside.escaped, List.append_assoc, List.cons_append]
    exact .opens (ihInner inner' (ihMore fits closing))

theorem closingBody (body : Body) (fits : body.Fits) : Closing 0 (body.text ++ ['\x60']) body.value := by
  induction body with
  | nil => exact .mark
  | plain c more ih =>
    obtain ⟨open', solid, flat, fits⟩ := fits
    refine .plain open' solid (fun ⟨dollar, brace⟩ => flat ⟨dollar, ?_⟩) (ih fits)
    exact (headBefore (by decide)).mp brace
  | escape e more ih =>
    obtain ⟨single, fits⟩ := fits
    simp only [Body.text, Body.value, List.append_assoc]
    exact closingEscape ((singleBefore (by decide)).mpr single) (ih fits)
  | hole inside more ih =>
    obtain ⟨inside', fits⟩ := fits
    simp only [Body.text, Body.value, List.append_assoc, List.cons_append]
    exact .enters (closingInside inside inside' (ih fits))

/- From a depth on, as many substitutions and groups are left before the body goes on. -/
def Parts : (depth : Nat) → (text value : List Char) → Prop
  | 0, text, value => ∃ body : Body, body.Fits ∧ text = body.text ++ ['\x60'] ∧ value = body.value
  | depth + 1, text, value => ∃ (inside : Inside) (text' value' : List Char), inside.Fits ∧
      text = inside.text ++ '\x7d' :: text' ∧ value = inside.escaped ++ value' ∧ Parts depth text' value'

theorem partsEscape (single : e.Single tail) (parts : Parts depth tail value) :
    Parts depth (e.text ++ tail) (e.value ++ value) := by
  cases depth with
  | zero =>
    obtain ⟨body, fits, rfl, rfl⟩ := parts
    refine ⟨.escape e body, ⟨(singleBefore (by decide)).mp single, fits⟩, ?_, rfl⟩
    exact (List.append_assoc ..).symm
  | succ depth =>
    obtain ⟨inside, text', value', fits, rfl, rfl, parts⟩ := parts
    refine ⟨.escape e inside, text', value', ⟨(singleBefore (by decide)).mp single, fits⟩, ?_, ?_, parts⟩
    · exact (List.append_assoc ..).symm
    · exact (List.append_assoc ..).symm

theorem closingParts (closing : Closing depth tail value) : Parts depth tail value := by
  induction closing with
  | mark => exact ⟨.nil, trivial, rfl, rfl⟩
  | lineEnd _ ih => exact partsEscape (e := .lineEnd) trivial ih
  | @escape _ c _ _ single _ ih => exact partsEscape (e := .char c) single ih
  | @plain c _ _ open' solid flat _ ih =>
    obtain ⟨body, fits, rfl, rfl⟩ := ih
    rw [headBefore (by decide)] at flat
    exact ⟨.plain c body, ⟨open', solid, flat, fits⟩, rfl, rfl⟩
  | enters _ ih =>
    obtain ⟨inside, _, _, fits, rfl, rfl, body, fits', rfl, rfl⟩ := ih
    refine ⟨.hole inside body, ⟨fits, fits'⟩, ?_, rfl⟩
    simp [Body.text]
  | opens _ ih =>
    obtain ⟨inner, _, _, fits, rfl, rfl, more, text', value', fits', rfl, rfl, parts⟩ := ih
    refine ⟨.group inner more, text', value', ⟨fits, fits'⟩, ?_, ?_, parts⟩
    · simp [Inside.text]
    · simp [Inside.escaped]
  | leaves _ ih => exact ⟨.nil, _, _, trivial, rfl, rfl, ih⟩
  | @inside _ c _ _ solid flat _ ih =>
    obtain ⟨inside, text', value', fits, rfl, rfl, parts⟩ := ih
    exact ⟨.plain c inside, text', value', ⟨solid, flat, fits⟩, rfl, rfl, parts⟩

end

/- The templates of a text are the bodies between two marks, and stand for their values. -/
theorem templateExact {piece value rest : List Char} :
    Lexed piece .templateLiteral value rest ↔
      ∃ body : Body, body.Fits ∧ piece = '\x60' :: (body.text ++ ['\x60']) ∧ value = body.value := by
  constructor
  · intro lexed
    generalize is : TokenKind.templateLiteral = kind at lexed
    cases lexed with
    | word => unfold wordKind at is; split at is <;> cases is
    | number | string | punct => cases is
    | @template body value rest closes =>
      obtain ⟨stop, same⟩ := closes 0 []
      rw [List.append_nil] at same
      obtain ⟨read, whole, closing⟩ := templateClosing 0 0 body (by rw [same])
      rw [same] at whole closing
      rw [List.append_nil] at whole
      obtain ⟨parts, fits, rfl, rfl⟩ := closingParts (whole ▸ closing)
      exact ⟨parts, fits, rfl, rfl⟩
  · rintro ⟨body, fits, rfl, rfl⟩
    exact .template (closingCloses (closingBody body fits))

/-! ### What substitutions add -/

theorem valueLength (body : Body) : body.value.length = body.bare.value.length + body.hidden.length := by
  induction body with
  | nil => rfl
  | plain c more ih => simp only [Body.value, Body.bare, Body.hidden, List.length_cons, ih]; omega
  | escape e more ih => simp only [Body.value, Body.bare, Body.hidden, List.length_append, ih]; omega
  | hole inside more ih =>
    simp only [Body.value, Body.bare, Body.hidden, Inside.escaped, List.nil_append, List.length_append, ih]
    omega

/- A value is that of the template without its substitutions exactly if these hold no escape that stands for
something. -/
theorem valueBare (body : Body) : body.value = body.bare.value ↔ body.hidden = [] := by
  constructor
  · intro same
    have long := valueLength body
    rw [same] at long
    exact List.eq_nil_of_length_eq_zero (by omega)
  · intro silent
    induction body with
    | nil => rfl
    | plain c more ih => exact congrArg (c :: ·) (ih silent)
    | escape e more ih => exact congrArg (e.value ++ ·) (ih silent)
    | hole inside more ih =>
      obtain ⟨none, silent⟩ := List.append_eq_nil_iff.mp silent
      rw [Body.value, none]
      exact ih silent

/- So two templates that differ within such substitutions alone stand for the same. -/
theorem substitutionsSilent {one two : Body} (alike : one.bare = two.bare) (first : one.hidden = [])
    (second : two.hidden = []) : one.value = two.value := by
  rw [(valueBare one).mpr first, (valueBare two).mpr second, alike]

/- An escape in a substitution adds to the value, also in a string that stands there. -/
example : (template 0 1 "a$\x7bf(\"x\\n\")\x7db\x60".toList).value = ['a', '\n', 'b'] ∧
    (template 0 1 "a$\x7bf(\"x\")\x7db\x60".toList).value = ['a', 'b'] := by decide +kernel

end CallGuard.Quoted
