import CallGuard.Tree.Walk

/-! Types as far as declarations state them: the head name of a type, or else the name that `new`
constructs. Names are looked up in the scopes around them, fields in the class around them. -/
namespace CallGuard

namespace Tree

/-- `Foo` for `Foo` and for `ns.Foo`. -/
def calleeName? (t : Tree) (callee : Slot) : Option String :=
  match t.access? callee with
  | some a => if t.isKind callee .propertyAccess then t.identifier? a.name else none
  | none => t.identifier? callee

/-- The name that a construction constructs. -/
def constructedName? (t : Tree) (s : Slot) : Option String :=
  let s := t.skipWrappers s
  if t.isKind s .newExpression then (t.call? s).bind fun c => t.calleeName? c.callee else none

/-- The type that a declaration states. -/
def statedType? (t : Tree) (type init : Slot) : Option String :=
  match t.typeReference? type with
  | some r => if r.name.isEmpty then t.constructedName? init else some r.name
  | none => t.constructedName? init

end Tree

/-- The constructs that bound where a declared name can be seen. -/
def NodeKind.isScope : NodeKind → Bool
  | .block | .sourceFile | .forStatement | .forOfStatement | .forInStatement | .catchClause => true
  | k => k.isFunctionLike

/-- A name that is visible within a scope and has a stated type. -/
structure TypedName where
  name : String
  scope : NodeId
  type : String
  deriving DecidableEq, Repr

/-- A field with a stated type, and what its declaration stands in. -/
structure TypedField where
  name : String
  owner : Slot
  type : String
  deriving DecidableEq, Repr

/-- All declarations of a tree that state a type, in the order in which they were added. -/
structure DeclaredTypes where
  names : List TypedName
  fields : List TypedField

namespace DeclaredTypes

def typedName? (t : Tree) (i : NodeId) (name type init : Slot) : Option TypedName := do
  let name ← t.identifier? name
  let type ← t.statedType? type init
  let scope ← (t.ancestors i).find? (t.kindIs NodeKind.isScope)
  some ⟨name, scope, type⟩

/-- The name that node `i` declares, when it is a variable or a parameter. -/
def nameOf? (t : Tree) (i : NodeId) : Option TypedName :=
  match t.payloadAt? i with
  | some (.declarator d) => typedName? t i d.name d.type d.init
  | some (.parameter p) => typedName? t i p.name p.type p.init
  | _ => none

/-- The field that node `i` declares. -/
def fieldOf? (t : Tree) (i : NodeId) : Option TypedField :=
  match t.payloadAt? i with
  | some (.field d) => do
    let name ← t.identifier? d.name
    let type ← t.statedType? d.type d.init
    some ⟨name, t.parent? i, type⟩
  | _ => none

def ofTree (t : Tree) : DeclaredTypes :=
  let ids := List.range t.size
  ⟨ids.filterMap (nameOf? t), ids.filterMap (fieldOf? t)⟩

/-- The last binding of a name within one scope. -/
def inScope? (bindings : List TypedName) (scope : NodeId) : Option String :=
  (bindings.reverse.find? (·.scope == scope)).map (·.type)

/-- The type of a name at a node: the innermost scope around it that binds the name decides. -/
def typeOfName? (d : DeclaredTypes) (t : Tree) (i : NodeId) (name : String) : Option String :=
  (t.ancestors i).findSome? (inScope? (d.names.filter (·.name == name)))

/-- The type of `this.name` at a node. The last declaration of a field decides. -/
def typeOfField? (d : DeclaredTypes) (t : Tree) (i : NodeId) (name : String) : Option String := do
  let owner ← (t.ancestors i).find? (t.kindIs (· == .classDeclaration))
  let field ← d.fields.reverse.find? fun f => f.owner == some owner && f.name == name
  some field.type

/-- The declared type of a name or of a field of `this`. -/
def typeOf? (d : DeclaredTypes) (t : Tree) (s : Slot) : Option String := do
  let i ← t.skipWrappers s
  match t.identifier? (some i) with
  | some name => d.typeOfName? t i name
  | none =>
    if t.isKind (some i) .propertyAccess then
      let access ← t.access? (some i)
      if t.isKind access.object (.token (.word .thisWord)) then
        let name ← t.identifier? access.name
        d.typeOfField? t i name
      else none
    else none

end DeclaredTypes

end CallGuard
