import CallGuard.Text.Offset
import CallGuard.Tree.Payload

/-! A tree kept as one row of nodes. Nodes are only ever added at the end, children before their
parents, and adding a node makes it the parent of its children. -/
namespace CallGuard

/-- Marks on a node, one bit each. -/
abbrev NodeFlags := Nat

namespace NodeFlags

def letFlag : NodeFlags := 1
def constFlag : NodeFlags := 2
def asyncFlag : NodeFlags := 4
def generator : NodeFlags := 8
def optionalChain : NodeFlags := 16
def staticFlag : NodeFlags := 32
/-- The node stands in for one that the text lacks. -/
def missing : NodeFlags := 64

/-- All marks that have a meaning. -/
def known : NodeFlags := 127

def has (flags mark : NodeFlags) : Bool := flags &&& mark != 0

end NodeFlags

structure Node where
  kind : NodeKind
  start : Nat
  stop : Nat
  flags : NodeFlags
  payload? : Option Payload
  parent? : Slot
  deriving DecidableEq, Repr

namespace Node

/-- A node that is a single token and holds nothing more. -/
def bare (kind : NodeKind) (start stop : Nat) : Node := ⟨kind, start, stop, 0, none, none⟩

def holding (kind : NodeKind) (start stop : Nat) (p : Payload) : Node :=
  ⟨kind, start, stop, 0, some p, none⟩

/-- An access; an optional one is marked as such. -/
def accessing (kind : NodeKind) (start stop : Nat) (a : Access) : Node :=
  { holding kind start stop (.access a) with
    flags := if a.optional then NodeFlags.optionalChain else 0 }

def width (n : Node) : Nat := n.stop - n.start

def isMissing (n : Node) : Bool := NodeFlags.has n.flags .missing

def isAsync (n : Node) : Bool := NodeFlags.has n.flags .asyncFlag

/-- Own payload and kind agree on the form. -/
def Agrees (n : Node) : Prop := ∀ p, n.payload? = some p → n.kind.form? = some p.form

end Node

/-- `text?` is the text of the first source file added. -/
structure Tree where
  nodes : Array Node
  text? : Option (List Char)

namespace Tree

def empty : Tree := ⟨#[], none⟩

def size (t : Tree) : Nat := t.nodes.size

def get? (t : Tree) (i : NodeId) : Option Node := t.nodes[i]?

def node? (t : Tree) (s : Slot) : Option Node := s.bind t.get?

def setParent (nodes : Array Node) (parent child : NodeId) : Array Node :=
  nodes.modify child fun n => { n with parent? := some parent }

/-- Adds a node and makes it the parent of the children it holds. -/
def add : Tree → Node → Tree
  | ⟨nodes, text?⟩, n =>
    let id := nodes.size
    let children := (n.payload?.map Payload.links).getD []
    let text? := match n.payload? with
      | some (.sourceFile s) => some (text?.getD s.text)
      | _ => text?
    ⟨children.foldl (setParent · id) (nodes.push n), text?⟩

def addFlags (t : Tree) (i : NodeId) (flags : NodeFlags) : Tree :=
  { t with nodes := t.nodes.modify i fun n => { n with flags := n.flags ||| flags } }

def setStop (t : Tree) (i : NodeId) (stop : Nat) : Tree :=
  { t with nodes := t.nodes.modify i fun n => { n with stop := stop } }

/-- The payloads of one form in the order in which they were added. -/
def payloadsOf (t : Tree) (form : Form) : List Payload :=
  t.nodes.toList.filterMap fun n => n.payload?.filter (·.form == form)

/-- How many payloads of its form were added before that of node `i`. -/
def rankOf (t : Tree) (i : NodeId) (form : Form) : Nat :=
  ((t.nodes.toList.take i).filter fun n => (n.payload?.map Payload.form) == some form).length

/-- What node `i` holds, read as its kind demands. A node added with a payload of another form
than its kind demands reads the payload of the demanded form that has the same rank. -/
def payloadAt? (t : Tree) (i : NodeId) : Option Payload := do
  let n ← t.get? i
  let own ← n.payload?
  let form ← n.kind.form?
  if own.form = form then some own else (t.payloadsOf form)[t.rankOf i own.form]?

def payload? (t : Tree) (s : Slot) : Option Payload := s.bind t.payloadAt?

theorem payloadAgreed {t : Tree} {i : NodeId} {n : Node} (h : t.get? i = some n)
    (agrees : n.Agrees) : t.payloadAt? i = n.payload? := by
  cases own : n.payload? with
  | none => simp [payloadAt?, h, own]
  | some p => simp [payloadAt?, h, own, agrees p own]

/-- Children that are there, in the order of the text. -/
def children (t : Tree) (i : NodeId) : List NodeId :=
  match t.get? i, t.payloadAt? i with
  | some n, some p => p.childrenAs n.kind
  | _, _ => []

def parent? (t : Tree) (i : NodeId) : Slot := (t.get? i).bind (·.parent?)

def kind? (t : Tree) (i : NodeId) : Option NodeKind := (t.get? i).map (·.kind)

def isKind (t : Tree) (s : Slot) (k : NodeKind) : Bool := (t.node? s).any (·.kind == k)

/-- The piece of the source that a node covers. -/
def textAt? (t : Tree) (i : NodeId) : Option (List Char) := do
  let n ← t.get? i
  let text ← t.text?
  Text.slice? text n.start n.stop

/-! ### What a place holds, when it has the form asked for -/

def identifier? (t : Tree) (s : Slot) : Option String :=
  match t.payload? s with | some (.identifier name) => some name | _ => none

def literal? (t : Tree) (s : Slot) : Option String :=
  match t.payload? s with | some (.literal text) => some text | _ => none

def operand? (t : Tree) (s : Slot) : Option Slot :=
  match t.payload? s with | some (.operand inner) => some inner | _ => none

def call? (t : Tree) (s : Slot) : Option Call :=
  match t.payload? s with | some (.call c) => some c | _ => none

def access? (t : Tree) (s : Slot) : Option Access :=
  match t.payload? s with | some (.access a) => some a | _ => none

def parenthesized? (t : Tree) (s : Slot) : Option Slot :=
  match t.payload? s with | some (.parenthesized inner) => some inner | _ => none

def property? (t : Tree) (s : Slot) : Option Property :=
  match t.payload? s with | some (.property p) => some p | _ => none

def function? (t : Tree) (s : Slot) : Option Function :=
  match t.payload? s with | some (.function f) => some f | _ => none

def typeReference? (t : Tree) (s : Slot) : Option TypeReference :=
  match t.payload? s with | some (.typeReference r) => some r | _ => none

def block? (t : Tree) (s : Slot) : Option NodeList :=
  match t.payload? s with | some (.block l) => some l | _ => none

def expressionStatement? (t : Tree) (s : Slot) : Option Slot :=
  match t.payload? s with | some (.expressionStatement inner) => some inner | _ => none

def branch? (t : Tree) (s : Slot) : Option Branch :=
  match t.payload? s with | some (.branch b) => some b | _ => none

end Tree

end CallGuard
