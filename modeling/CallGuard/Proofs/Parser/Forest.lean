import CallGuard.Proofs.Parser.Program
import CallGuard.Proofs.Tree.Depth

/-! The row of nodes of any text, well-formed or not, is a forest: the children that a node lists
are exactly the nodes that it is the parent of, and what a node holds stands where its kind looks
for it. -/
namespace CallGuard

namespace Parse

/- The children are the links in some order. -/
theorem runKids {s s' : ParseState} {ids : List NodeId} (run : Run s ids s')
    (before : ∀ i n, s.tree.get? i = some n → n.links.Perm n.kids) :
    ∀ i n, s'.tree.get? i = some n → n.links.Perm n.kids := by
  have kept {n m : Node} (same : n.Same m) (own : n.links.Perm n.kids) : m.links.Perm m.kids := by
    rwa [same.links, same.kids]
  induction run with
  | rest => exact before
  | chain _ _ one two => exact two (one before)
  | forget _ _ ih => exact ih before
  | advance => exact before
  | report => exact before
  | look _ ih => exact ih before
  | nest _ _ ih => exact ih before
  | within _ _ ih => exact ih before
  | node _ _ _ _ kids links _ ih =>
    intro i m found
    rcases Tree.addOrigin found with ⟨_, same⟩ | ⟨k, old, same⟩
    · exact kept same (kids ▸ links)
    · exact kept same (ih before i k old)
  | flags s j marks =>
    intro i m found
    obtain ⟨k, old, same⟩ := Tree.flagsOrigin found
    exact kept same (before i k old)
  | stop s j stop =>
    intro i m found
    obtain ⟨k, old, same⟩ := Tree.stopOrigin found
    exact kept same (before i k old)

end Parse

namespace Tree
variable {t : Tree} {i j : NodeId} {n : Node}

theorem childrenKids (forest : t.Forest) (found : t.get? i = some n) : t.children i = n.kids := by
  rw [children, found, payloadAgreed found (forest.agrees i n found), Node.kids]
  cases n.payload? <;> rfl

theorem linksFound (found : t.get? i = some n) : t.linksOf i = n.links := by
  rw [linksOf, found]
  rfl

/- Going up leads to younger nodes and so never comes back. -/
theorem aboveYounger (forest : t.Forest)
    (above : Relation.TransGen (fun child parent => t.parent? child = some parent) i j) : i < j := by
  induction above with
  | single parent => exact forest.older _ _ ((forest.parent _ _).mp parent)
  | tail _ parent ih => exact Nat.lt_trans ih (forest.older _ _ ((forest.parent _ _).mp parent))

/- The payload of a node as one of a form. -/
def payloadAs (form : Form) (n : Node) : Option Payload := n.payload?.filter (·.form == form)

theorem rankLength (t : Tree) (i : NodeId) (form : Form) :
    t.rankOf i form = ((t.nodes.toList.take i).filterMap (payloadAs form)).length := by
  rw [rankOf, List.length_filterMap_eq_countP, List.countP_eq_length_filter]
  congr 2
  funext n
  rw [payloadAs]
  cases n.payload? with
  | none => rfl
  | some p => cases own : p.form == form <;> simp_all [Option.filter]

/- A payload stands in the row of its form where its rank points. -/
theorem payloadRanked {own : Payload} (found : t.get? i = some n) (holds : n.payload? = some own) :
    (t.payloadsOf own.form)[t.rankOf i own.form]? = some own := by
  have there : t.nodes.toList[i]? = some n := by rw [Array.getElem?_toList]; exact found
  have split : t.nodes.toList = t.nodes.toList.take i ++ n :: t.nodes.toList.drop (i + 1) := by
    obtain ⟨inside, same⟩ := List.getElem?_eq_some_iff.mp there
    rw [← same, List.getElem_cons_drop, List.take_append_drop]
  have picked : payloadAs own.form n = some own := by
    rw [payloadAs, holds]
    simp [Option.filter]
  have row : t.payloadsOf own.form = (t.nodes.toList.take i).filterMap (payloadAs own.form) ++
      own :: (t.nodes.toList.drop (i + 1)).filterMap (payloadAs own.form) := by
    calc t.payloadsOf own.form = t.nodes.toList.filterMap (payloadAs own.form) := rfl
      _ = (t.nodes.toList.take i ++ n :: t.nodes.toList.drop (i + 1)).filterMap
            (payloadAs own.form) := congrArg _ split
      _ = _ := by rw [List.filterMap_append, List.filterMap_cons_some picked]
  rw [row, rankLength, List.getElem?_append_right (Nat.le_refl _), Nat.sub_self]
  rfl

end Tree

namespace Program

theorem treeKids (fileName : String) (text : List Char) {i : NodeId} {n : Node}
    (found : (parse fileName text).tree.get? i = some n) : n.links.Perm n.kids := by
  rcases Tree.addOrigin found with ⟨_, same⟩ | ⟨k, old, same⟩
  · rw [same.links, same.kids]
    exact .refl _
  · rw [same.links, same.kids]
    refine Parse.runKids (statementsRun text) (fun i n before => ?_) i k old
    rw [initialTree] at before
    cases before

theorem childrenLinks (fileName : String) (text : List Char) (i : NodeId) :
    let t := (parse fileName text).tree
    (t.linksOf i).Perm (t.children i) := by
  intro t
  cases found : t.get? i with
  | none => rw [Tree.linksOf, Tree.children, found]; exact .refl _
  | some n =>
    rw [Tree.linksFound found, Tree.childrenKids (treeForest fileName text) found]
    exact treeKids fileName text found

theorem rootFree (fileName : String) (text : List Char) :
    (parse fileName text).tree.parent? (parse fileName text).root = none :=
  (Tree.builtForest (treeBuilt fileName text)).2.free _ List.mem_cons_self

/- Node `c` stands once among the children of `i` if `i` is its parent, and else not at all. -/
theorem treeLinked (fileName : String) (text : List Char) :
    let p := parse fileName text
    let t := p.tree
    (∀ i c, (t.children i).count c = if t.parent? c = some i then 1 else 0) ∧
      (∀ i, ∀ c ∈ t.children i, c < i) ∧
      (∀ i j, Relation.TransGen (fun child parent => t.parent? child = some parent) i j → i < j) ∧
      (∀ i, ∃ n, t.Depth i n) ∧
      (p.root + 1 = t.size ∧ t.kind? p.root = some .sourceFile ∧ t.parent? p.root = none) ∧
      (∀ i, i < t.size ↔ ∃ n, t.get? i = some n) ∧
      ∀ i n own, t.get? i = some n → n.payload? = some own →
        ∃ form, n.kind.form? = some form ∧
          (t.payloadsOf form)[t.rankOf i own.form]? = some own := by
  intro p t
  have forest : t.Forest := treeForest fileName text
  have links := childrenLinks fileName text
  refine ⟨fun i c => ?_, fun i c child => ?_, fun i j => Tree.aboveYounger forest, fun i => ?_,
    ⟨?_, ?_, rootFree fileName text⟩, fun i => ⟨fun inside => ?_, fun ⟨n, found⟩ => Tree.getInside found⟩, ?_⟩
  · rw [← (links i).count_eq, List.Nodup.count (forest.once i)]
    exact if_congr (forest.parent i c).symm rfl rfl
  · exact forest.older i c ((links i).mem_iff.mpr child)
  · obtain ⟨n, depth, _⟩ := Tree.depthExists forest i
    exact ⟨n, depth⟩
  · exact (Tree.addSize _ _).symm
  · obtain ⟨m, found, same⟩ := Tree.addNew (statements _).2.tree _
    rw [Tree.kind?, show t.get? p.root = some m from found, Option.map_some, same.kind]
    rfl
  · exact ⟨t.nodes[i], Array.getElem?_eq_getElem inside⟩
  · intro i n own found holds
    exact ⟨own.form, forest.agrees i n found own holds, Tree.payloadRanked found holds⟩

end Program
end CallGuard
