import CallGuard.Parser.Program

/-! Expressions as they are meant, apart from any text. Parentheses are put in where an operand binds
less tightly than its place demands, and nowhere else; then the tokens are written down with single
blanks between them. -/
namespace CallGuard

/-! ### Tokens as they are written -/

def isWord (text : String) : Bool :=
  match text.toList with
  | c :: cs => isWordStart c && cs.all isWordPart
  | [] => false

structure Word where
  text : String
  shape : isWord text = true

/- A word that is not reserved. -/
structure Name extends Word where
  free : Keyword.ofSpelling? text = none

structure Numeral where
  text : String
  begins : Lexeme.startsNumber text.toList = true
  whole : Number.split text.toList = (text.toList, [])

namespace Word

def kind (w : Word) : TokenKind :=
  match Keyword.ofSpelling? w.text with
  | some k => .word k
  | none => .identifier

def reserved (k : Keyword) : Word := ⟨k.spelling, by cases k <;> decide⟩

theorem kindForm (w : Word) : w.kind = .identifier ∨ ∃ k, w.kind = .word k := by
  unfold kind
  split
  · exact .inr ⟨_, rfl⟩
  · exact .inl rfl

@[simp] theorem kindReserved (k : Keyword) : (reserved k).kind = .word k := by
  cases k <;> decide

end Word

@[simp] theorem Name.kind (n : Name) : n.toWord.kind = .identifier := by
  rw [Word.kind, n.free]

inductive Mark
  | word (w : Word)
  | number (n : Numeral)
  | punct (p : Punctuator)

namespace Mark

def kind : Mark → TokenKind
  | .word w => w.kind
  | .number _ => .numericLiteral
  | .punct p => .punct p

/- What the token stands for; punctuators stand for nothing. -/
def value : Mark → String
  | .word w => w.text
  | .number n => n.text
  | .punct _ => ""

def spelling : Mark → List Char
  | .word w => w.text.toList
  | .number n => n.text.toList
  | .punct p => p.spelling.toList

def join : List Mark → List Char
  | [] => []
  | [m] => m.spelling
  | m :: ms => m.spelling ++ ' ' :: join ms

end Mark

/-! ### Trees -/

/- Every operator of the table of precedences but `<`. -/
structure BinaryOp where
  mark : Mark
  binds : 0 < Parse.precedence mark.kind false
  plain : mark.kind ≠ .punct .less

def BinaryOp.level (op : BinaryOp) : Nat := Parse.precedence op.mark.kind false

/- `!`, `-`, `+`, `~`, `typeof` and `void`. -/
structure PrefixOp where
  mark : Mark
  stands : Parse.isPrefixOperator mark.kind = true
  keeps : mark.kind ≠ .punct .plusPlus ∧ mark.kind ≠ .punct .minusMinus

/- `=` and the compound assignments. -/
structure AssignOp where
  mark : Mark
  assigns : mark.kind.isAssignment = true

def isConstant : Keyword → Bool
  | .thisWord | .trueWord | .falseWord | .nullWord => true
  | _ => false

structure Constant where
  word : Keyword
  plain : isConstant word = true

/- An assignment is to a name or to a property. -/
inductive Expr
  | name (n : Name)
  | constant (c : Constant)
  | number (n : Numeral)
  | prefixed (op : PrefixOp) (operand : Expr)
  | awaited (operand : Expr)
  | binary (op : BinaryOp) (left right : Expr)
  | conditional (test whenTrue whenFalse : Expr)
  | assignName (n : Name) (op : AssignOp) (value : Expr)
  | assignProperty (object : Expr) (optional : Bool) (property : Word) (op : AssignOp) (value : Expr)
  | access (object : Expr) (optional : Bool) (property : Word)
  | call (callee : Expr) (args : List Expr)
  | nonNull (operand : Expr)
  | paren (inner : Expr)

namespace Expr

/- How tightly an expression holds together: 0 for assignments and conditions, the precedence of a
binary operator, 10 with an operator in front, 11 for all that may be appended to. -/
def level : Expr → Nat
  | .binary op _ _ => op.level
  | .conditional .. | .assignName .. | .assignProperty .. => 0
  | .prefixed .. | .awaited .. => 10
  | _ => 11

def fit (least : Nat) (e : Expr) : Expr := if e.level < least then .paren e else e

mutual

/- Binary operators group from the left, assignments and conditions from the right. -/
def group : Expr → Expr
  | .name n => .name n
  | .constant c => .constant c
  | .number n => .number n
  | .prefixed op e => .prefixed op (fit 10 e.group)
  | .awaited e => .awaited (fit 10 e.group)
  | .binary op l r => .binary op (fit op.level l.group) (fit (op.level + 1) r.group)
  | .conditional c t f => .conditional (fit 1 c.group) t.group f.group
  | .assignName n op v => .assignName n op v.group
  | .assignProperty o optional w op v => .assignProperty (fit 11 o.group) optional w op v.group
  | .access o optional w => .access (fit 11 o.group) optional w
  | .call f args => .call (fit 11 f.group) (groupAll args)
  | .nonNull e => .nonNull (fit 11 e.group)
  | .paren e => .paren e.group

def groupAll : List Expr → List Expr
  | [] => []
  | e :: es => e.group :: groupAll es

end

def dot (optional : Bool) : Mark := .punct (if optional then .questionDot else .dot)

mutual

def marks : Expr → List Mark
  | .name n => [.word n.toWord]
  | .constant c => [.word (.reserved c.word)]
  | .number n => [.number n]
  | .prefixed op e => op.mark :: e.marks
  | .awaited e => .word (.reserved .awaitWord) :: e.marks
  | .binary op l r => l.marks ++ op.mark :: r.marks
  | .conditional c t f => c.marks ++ .punct .question :: (t.marks ++ .punct .colon :: f.marks)
  | .assignName n op v => .word n.toWord :: op.mark :: v.marks
  | .assignProperty o optional w op v => o.marks ++ dot optional :: .word w :: op.mark :: v.marks
  | .access o optional w => o.marks ++ [dot optional, .word w]
  | .call f args => f.marks ++ .punct .openParen :: (argMarks args ++ [.punct .closeParen])
  | .nonNull e => e.marks ++ [.punct .bang]
  | .paren e => .punct .openParen :: (e.marks ++ [.punct .closeParen])

def argMarks : List Expr → List Mark
  | [] => []
  | [e] => e.marks
  | e :: f :: es => e.marks ++ .punct .comma :: argMarks (f :: es)

end

/- The tokens with single blanks between them, and a semicolon behind any number of blanks. -/
def print (e : Expr) (blanks : Nat) : List Char :=
  Mark.join e.marks ++ (List.replicate blanks ' ' ++ [';'])

mutual

/- How deep an expression nests: parentheses, operators in front, the branches of a condition, the
value of an assignment and the arguments of a call are one level below what they belong to. -/
def nesting : Expr → Nat
  | .name _ | .constant _ | .number _ => 1
  | .prefixed _ e | .awaited e | .paren e => e.nesting + 1
  | .binary _ l r => max l.nesting r.nesting
  | .conditional c t f => max c.nesting (max t.nesting f.nesting + 1)
  | .assignName _ _ v => v.nesting + 1
  | .assignProperty o _ _ _ v => max o.nesting (v.nesting + 1)
  | .access o _ _ => o.nesting
  | .call f args => max f.nesting (nestingAll args + 1)
  | .nonNull e => e.nesting

def nestingAll : List Expr → Nat
  | [] => 0
  | e :: es => max e.nesting (nestingAll es)

end

end Expr
end CallGuard
