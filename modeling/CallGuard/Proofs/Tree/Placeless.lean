import CallGuard.Proofs.Tree.Grows

/-! Trees that differ in nothing but places: node by node they agree in kind, marks, parent and what the
nodes hold, apart from offsets and the text of the source. -/
namespace CallGuard

/-- A row of children without its span. -/
def NodeList.placeless (l : NodeList) : NodeList := ⟨l.items, 0, 0⟩

/-- What a node holds, without the spans of rows and without the text of the source. -/
def Payload.placeless : Payload → Payload
  | .call c => .call ⟨c.callee, c.typeArgs.map NodeList.placeless, c.args.map NodeList.placeless⟩
  | .elements l => .elements l.placeless
  | .function f => .function { f with params := f.params.placeless }
  | .classBody c => .classBody { c with members := c.members.placeless }
  | .block l => .block l.placeless
  | .declarations l => .declarations l.placeless
  | .sourceFile s => .sourceFile ⟨s.statements.placeless, s.name, []⟩
  | p => p

/-- A node without its span. -/
def Node.placeless (n : Node) : Node :=
  { n with start := 0, stop := 0, payload? := n.payload?.map Payload.placeless }

theorem Payload.placelessSlots (p : Payload) : p.placeless.slots = p.slots := by
  cases p with
  | call c => cases c with
    | mk callee typeArgs args => cases typeArgs <;> cases args <;> rfl
  | _ => rfl

theorem Payload.placelessChildren (kind : NodeKind) (p : Payload) :
    p.placeless.childrenAs kind = p.childrenAs kind := by
  by_cases loop : kind = .doStatement
  · subst loop
    cases p with
    | loop l => rfl
    | call c => exact congrArg (List.filterMap id) (placelessSlots (.call c))
    | _ => rfl
  · rw [childrenLinked loop, childrenLinked loop, links, links, placelessSlots]

namespace Node

theorem placelessLinks (n : Node) : n.placeless.links = n.links := by
  rw [links, links, placeless, Option.map_map]
  cases n.payload? with
  | none => rfl
  | some p => exact congrArg (List.filterMap id) p.placelessSlots

theorem placelessKids (n : Node) : n.placeless.kids = n.kids := by
  rw [kids, kids, placeless, Option.map_map]
  cases n.payload? with
  | none => rfl
  | some p => exact p.placelessChildren n.kind

theorem likeLinks {n m : Node} (like : m.placeless = n.placeless) : m.links = n.links := by
  rw [← placelessLinks, like, placelessLinks]

theorem likeKids {n m : Node} (like : m.placeless = n.placeless) : m.kids = n.kids := by
  rw [← placelessKids, like, placelessKids]

end Node

namespace Tree

/-- Trees of as many nodes that differ in nothing but places. -/
structure Like (t t' : Tree) : Prop where
  size : t'.size = t.size
  nodes : ∀ i, (t'.get? i).map Node.placeless = (t.get? i).map Node.placeless

variable {t t' : Tree}

theorem Like.refl (t : Tree) : t.Like t := ⟨rfl, fun _ => rfl⟩

theorem likeAdd (like : t.Like t') {n n' : Node} (same : n'.placeless = n.placeless) :
    (t.add n).Like (t'.add n') := by
  refine ⟨by rw [addSize, addSize, like.size], fun i => ?_⟩
  have parents (m : Node) : Node.placeless (if i ∈ n.links then { m with parent? := some t.size } else m) =
      if i ∈ n.links then { m.placeless with parent? := some t.size } else m.placeless := by
    split <;> rfl
  have before : (if i = t.size then some n' else t'.get? i).map Node.placeless =
      (if i = t.size then some n else t.get? i).map Node.placeless := by
    split
    · exact congrArg some same
    · exact like.nodes i
  rw [addAt, addAt, like.size, Node.likeLinks same, Option.map_map, Option.map_map]
  simp only [Function.comp_def, parents]
  have through (m? : Option Node) : m?.map (fun m =>
      if i ∈ n.links then { m.placeless with parent? := some t.size } else m.placeless) =
      (m?.map Node.placeless).map fun m => if i ∈ n.links then { m with parent? := some t.size } else m := by
    rw [Option.map_map]
    rfl
  rw [through, through, before]

theorem likeModify (like : t.Like t') {f f' g : Node → Node}
    (one : ∀ n, (f n).placeless = g n.placeless) (two : ∀ n, (f' n).placeless = g n.placeless) (i : NodeId) :
    Like { t with nodes := t.nodes.modify i f } { t' with nodes := t'.nodes.modify i f' } := by
  refine ⟨?_, fun j => ?_⟩
  · simpa only [size, Array.size_modify] using like.size
  · have node := like.nodes j
    simp only [get?, Array.getElem?_modify] at node ⊢
    split
    · have through (h : Node → Node) (same : ∀ n, (h n).placeless = g n.placeless) (m? : Option Node) :
          (m?.map h).map Node.placeless = (m?.map Node.placeless).map g := by
        rw [Option.map_map, Option.map_map]
        exact congrArg (m?.map ·) (funext same)
      rw [through f' two, through f one, node]
    · exact node

theorem likeFlags (like : t.Like t') (i : NodeId) (flags : NodeFlags) :
    (t.addFlags i flags).Like (t'.addFlags i flags) :=
  likeModify (g := fun n => { n with flags := n.flags ||| flags }) like (fun _ => rfl) (fun _ => rfl) i

theorem likeStop (like : t.Like t') (i : NodeId) (stop stop' : Nat) :
    (t.setStop i stop).Like (t'.setStop i stop') := by
  refine likeModify (g := id) like ?_ ?_ i <;> exact fun _ => rfl

end Tree

end CallGuard
