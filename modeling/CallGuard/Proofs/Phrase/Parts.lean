import CallGuard.Proofs.Parser.Placed
import CallGuard.Proofs.Phrase.Program

/-! Which node a token belongs to. The children of a node are the nodes among its parts, so every
token of a text without faults is a part of one of the nodes under its root. -/
namespace CallGuard
namespace Phrase
open Parse

attribute [local simp] presentLinks presentChildren Payload.slots Payload.inOrder

/-! ### The nodes of a row -/

section
variable {k opening closing : TokenKind} {c : Category} {cs : List Category} {s : Slot}
  {items : List Slot} {l : NodeList} {there : Bool} {kind : NodeKind} {row : List Part}

theorem maybeNodes (maybe : Maybe k there row) : nodes row = [] := by
  cases maybe <;> rfl

theorem perhapsNodes (perhaps : Perhaps c s row) : nodes row = s.toList := by
  cases perhaps <;> rfl

theorem behindNodes (behind : Behind k c s row) : nodes row = s.toList := by
  cases behind <;> rfl

theorem droppedNodes (dropped : Dropped row) : nodes row = [] := by
  obtain ⟨ts, rfl⟩ := dropped
  induction ts with
  | nil => rfl
  | cons t ts ih => exact ih

theorem marksNodes (marks : Marks row) : nodes row = [] := by
  induction marks with
  | nil => rfl
  | next _ _ ih => rw [nodesAppend, ih]; rfl

theorem ledNodes (led : Led cs items row) : nodes row = present items.reverse := by
  induction led with
  | nil => rfl
  | next _ _ _ ih => simp [ih]

theorem listedNodes (listed : Listed cs items row) : nodes row = present items.reverse := by
  cases listed with
  | led led => exact ledNodes led
  | last before => simp [ledNodes before]

theorem bracketedNodes (list : Bracketed opening closing cs l row) : nodes row = present l.items := by
  cases list with
  | mk _ listed _ => simp [listedNodes listed]

theorem typeArgumentsNodes {types : Option NodeList} (generic : TypeArguments types row) :
    nodes row = refs types := by
  cases generic with
  | absent => rfl
  | there given => exact bracketedNodes given

theorem yieldedNodes (value : Yielded s row) : nodes row = s.toList := by
  cases value <;> rfl

theorem bodiedNodes (bodied : Bodied s row) : nodes row = s.toList := by
  cases bodied with
  | block => rfl
  | absent semicolon => exact maybeNodes semicolon

theorem restedNodes {f : Function} (rested : Rested f row) :
    nodes row = present f.params.items ++ (f.type.toList ++ f.body.toList) := by
  cases rested with
  | mk dropped given result bodied =>
    simp [droppedNodes dropped, bracketedNodes given, behindNodes result, bodiedNodes bodied]

theorem headedNodes (headed : Headed c kind s row) : nodes row = s.toList := by
  cases headed with
  | declaration marked | named marked | method marked => simp [marksNodes marked]
  | anonymous marked | constructor marked => exact marksNodes marked
  | classMethod marked asks bangs => simp [marksNodes marked, maybeNodes asks, maybeNodes bangs]

theorem arrowParametersNodes (given : ArrowParameters l row) : nodes row = present l.items := by
  cases given with
  | bare only => rw [only]; rfl
  | bracketed dropped given => simp [droppedNodes dropped, bracketedNodes given]

theorem testedNodes (tested : Tested s row) : nodes row = s.toList := by
  cases tested; rfl

theorem statedNodes (stated : Stated s row) : nodes row = s.toList := by
  cases stated with
  | plain | block => rfl
  | declarations semicolon => simp [maybeNodes semicolon]

theorem statementsNodes (statements : Statements items row) : nodes row = present items.reverse := by
  induction statements with
  | nil => rfl
  | next _ stated ih => simp [ih, statedNodes stated]

theorem otherwiseNodes (otherwise : Otherwise s row) : nodes row = s.toList := by
  cases otherwise with
  | absent => rfl
  | there _ stated => simp [statedNodes stated]

theorem beginsNodes (begins : Begins s row) : nodes row = s.toList := by
  cases begins <;> rfl

theorem catchesNodes (catches : Catches s row) : nodes row = s.toList := by
  cases catches <;> rfl

theorem extendsNodes (extended : Extends s row) : nodes row = s.toList := by
  cases extended with
  | absent => rfl
  | there _ dropped => simp [droppedNodes dropped]

theorem membersNodes (members : Members items row) : nodes row = present items.reverse := by
  induction members with
  | nil => rfl
  | member _ ih => simp [ih]
  | semicolon _ _ ih => simp [ih]
  | marks _ marked ih => simp [ih, marksNodes marked]

/- The children of a node are the nodes that it is made of. -/
theorem madeKids {payload : Option Payload} (made : Made c kind payload row) :
    (payload.map (Payload.childrenAs kind)).getD [] = nodes row := by
  cases made with
  | type => exact (droppedNodes ⟨_, rfl⟩).symm
  | yielded _ value => simp [yieldedNodes value]
  | element asks => simp [maybeNodes asks]
  | call asks generic given =>
    simp [maybeNodes asks, typeArgumentsNodes generic, bracketedNodes given]
  | bareConstruction _ generic => simp [typeArgumentsNodes generic]
  | construction _ generic given => simp [typeArgumentsNodes generic, bracketedNodes given]
  | array _ items | object _ items => exact (bracketedNodes items).symm
  | assigned marked => simp [marksNodes marked]
  | shorthand marked initial => simp [marksNodes marked, behindNodes initial]
  | parameter marked name rests asks typed initial =>
    simp [name, marksNodes marked, maybeNodes rests, maybeNodes asks, behindNodes typed,
      behindNodes initial]
  | function headed rested => simp [headedNodes headed, restedNodes rested]
  | arrow marked anonymous given result _ _ body =>
    simp [anonymous, body, marksNodes marked, arrowParametersNodes given, behindNodes result]
  | declarator name bangs typed initial =>
    simp [name, maybeNodes bangs, behindNodes typed, behindNodes initial]
  | declarations _ items => simp [listedNodes items]
  | field marked name asks bangs typed initial semicolon =>
    simp [name, marksNodes marked, maybeNodes asks, maybeNodes bangs, behindNodes typed,
      behindNodes initial, maybeNodes semicolon]
  | classDeclaration _ named dropped extended implemented _ members _ =>
    simp [perhapsNodes named, droppedNodes dropped, extendsNodes extended,
      droppedNodes implemented, membersNodes members]
  | block _ statements _ => simp [statementsNodes statements]
  | expressionStatement semicolon => simp [maybeNodes semicolon]
  | branch _ tested stated otherwise =>
    simp [testedNodes tested, statedNodes stated, otherwiseNodes otherwise]
  | repeated _ tested stated => simp [testedNodes tested, statedNodes stated]
  | @done _ _ body _ test _ _ _ _ stated _ tested semicolon =>
    show present [_, _] = _
    simp [statedNodes stated, testedNodes tested, maybeNodes semicolon]
  | @counted _ _ _ _ init head _ _ _ _ _ _ _ _ _ _ awaiting _ begins _ tests _ steps _ stated =>
    have first : nodes head = init.toList := by
      rcases begins with ⟨rfl, rfl⟩ | begins
      · rfl
      · exact beginsNodes begins
    simp [first, maybeNodes awaiting, perhapsNodes tests, perhapsNodes steps, statedNodes stated]
  | iterated _ awaiting _ begins _ _ stated =>
    simp [maybeNodes awaiting, beginsNodes begins, statedNodes stated]
  | exits _ valued semicolon => simp [perhapsNodes valued, maybeNodes semicolon]
  | jumps _ labelled semicolon => simp [perhapsNodes labelled, maybeNodes semicolon]
  | handler _ catches => simp [catchesNodes catches]
  | attempt _ handles finalizes => simp [perhapsNodes handles, behindNodes finalizes]
  | file statements => simp [statementsNodes statements]
  | _ => rfl

end

/-! ### The node of a token -/

/- What a node is made of. With a token in front it begins there. -/
structure Composed (t : Tree) (i : NodeId) (n : Node) (c : Category) (row : List Part) : Prop where
  found : t.get? i = some n
  made : Made c n.kind n.payload? row
  begins : ∀ k rest, row = .token k :: rest → n.start = k.start

/- The row has the token itself, be it passed over. -/
def Has (k : Token) (row : List Part) : Prop := .token k ∈ row ∨ .skipped k ∈ row

/- A node at or under `i` has the token. -/
def Belongs (t : Tree) (i : NodeId) (k : Token) : Prop :=
  ∃ j n c row, t.Under i j ∧ Composed t j n c row ∧ Has k row

variable {t : Tree} {row : List Part} {ahead after : List Token} {i : NodeId} {n : Node} {c : Category}

theorem Has.later {k : Token} (has : Has k row) (x : Part) : Has k (x :: row) :=
  has.imp (List.mem_cons_of_mem x) (List.mem_cons_of_mem x)

theorem composedChildren (forest : t.Forest) (composed : Composed t i n c row) :
    t.children i = nodes row :=
  (Tree.childrenKids forest composed.found).trans (madeKids composed.made)

theorem belongsBelow (forest : t.Forest) (composed : Composed t i n c row) {k : Token}
    (below : Has k row ∨ ∃ j ∈ nodes row, Belongs t j k) : Belongs t i k := by
  rcases below with own | ⟨j, member, j', m, c', row', under, composed', has⟩
  · exact ⟨i, n, c, row, .self i, composed, own⟩
  · rw [← composedChildren forest composed] at member
    exact ⟨j', m, c', row', .down member under, composed', has⟩

/- A node of a row is made by the rules, as one that is spelled with its first token. -/
theorem fitsComposed {first : Token} {inner : List Part} {mid : List Token} (found : t.get? i = some n)
    (place : n.start = first.start) (fits : Fits True c n inner)
    (inside : Spelt t True inner (first :: ahead) mid) : Composed t i n c inner := by
  refine ⟨found, fits.made trivial, ?_⟩
  rintro k rest rfl
  cases inside
  exact place

theorem speltSuffix (spelt : Spelt t True row ahead after) : after <:+ ahead := by
  induction spelt with
  | nil => exact List.suffix_rfl
  | token _ ih | skipped _ ih => exact ih.trans (List.suffix_cons ..)
  | node _ _ _ _ _ ihInside ihRest => exact ihRest.trans ihInside

theorem hasCons {k : Token} {x : Part} :
    Has k (x :: row) ↔ (.token k = x ∨ .skipped k = x) ∨ Has k row := by
  simp only [Has, List.mem_cons, or_or_or_comm]

/- A row takes its tokens from those in front of it. -/
theorem speltTaken (spelt : Spelt t True row ahead after) {k : Token} (has : Has k row) : k ∈ ahead := by
  induction spelt with
  | nil => rcases has with own | own <;> cases own
  | token _ ih | skipped _ ih =>
    rcases hasCons.mp has with own | later
    · rcases own with same | same <;> cases same
      exact List.mem_cons_self
    · exact List.mem_cons_of_mem _ (ih later)
  | node _ _ _ inside _ _ ihRest =>
    rcases hasCons.mp has with own | later
    · rcases own with same | same <;> cases same
    · exact (speltSuffix inside).subset (ihRest later)

/- The nodes of a row and all nodes under them are made by the rules, from tokens in front of it. -/
theorem speltComposed (forest : t.Forest) (spelt : Spelt t True row ahead after) {i j : NodeId}
    (own : i ∈ nodes row) (under : t.Under i j) :
    ∃ n c row, Composed t j n c row ∧ ∀ k, Has k row → k ∈ ahead := by
  induction spelt generalizing i with
  | nil => cases own
  | token _ ih | skipped _ ih =>
    obtain ⟨n, c, row, composed, taken⟩ := ih own under
    exact ⟨n, c, row, composed, fun k has => List.mem_cons_of_mem _ (taken k has)⟩
  | node found place fits inside _ ihInside ihRest =>
    have composed := fitsComposed found place fits inside
    rcases List.mem_cons.mp own with rfl | other
    · cases under with
      | self => exact ⟨_, _, _, composed, fun _ => speltTaken inside⟩
      | down child under => exact ihInside (composedChildren forest composed ▸ child) under
    · obtain ⟨n, c, row, composed, taken⟩ := ihRest other under
      exact ⟨n, c, row, composed, fun k has => (speltSuffix inside).subset (taken k has)⟩

/- The tokens that a row takes are its own or belong to its nodes. -/
theorem speltBelongs (forest : t.Forest) (spelt : Spelt t True row ahead after) :
    ∀ k ∈ ahead, k ∈ after ∨ Has k row ∨ ∃ i ∈ nodes row, Belongs t i k := by
  induction spelt with
  | nil => exact fun k member => .inl member
  | token _ ih =>
    intro k member
    rcases List.mem_cons.mp member with rfl | later
    · exact .inr (.inl (.inl List.mem_cons_self))
    · exact (ih k later).imp_right (Or.imp_left (·.later _))
  | skipped _ ih =>
    intro k member
    rcases List.mem_cons.mp member with rfl | later
    · exact .inr (.inl (.inr List.mem_cons_self))
    · exact (ih k later).imp_right (Or.imp_left (·.later _))
  | @node c i n inner row first ahead mid after found place fits inside _ ihInside ihRest =>
    intro k member
    have composed := fitsComposed found place fits inside
    rcases ihInside k member with later | below
    · rcases ihRest k later with after | own | ⟨j, other, belongs⟩
      · exact .inl after
      · exact .inr (.inl (own.later _))
      · exact .inr (.inr ⟨j, List.mem_cons_of_mem i other, belongs⟩)
    · exact .inr (.inr ⟨i, List.mem_cons_self, belongsBelow forest composed below⟩)

/- A row of statements begins with a node. -/
theorem statementsHead {items : List Slot} (statements : Statements items row) (k : Token)
    (rest : List Part) : row ≠ .token k :: rest := by
  induction statements generalizing rest with
  | nil => exact fun same => by cases same
  | @next items row s more _ stated ih =>
    intro same
    cases row with
    | nil => cases stated <;> cases same
    | cons x row =>
      obtain ⟨rfl, _⟩ := List.cons.inj same
      exact ih row rfl

theorem fileHead {kind : NodeKind} {payload : Option Payload} (made : Made .file kind payload row)
    (k : Token) (rest : List Part) : row ≠ .token k :: rest := by
  cases made with
  | file statements => exact statementsHead statements k rest
  | name role | identifier role | literal role | array role | object role => simp at role
  | function headed => cases headed

end Phrase

namespace Program
open Phrase

theorem fileComposed {fileName : String} {text : List Char} (clean : (parse fileName text).errors = []) :
    let p := parse fileName text
    ∃ n row last, Composed p.tree p.root n .file row ∧ last.isEnd = true ∧
      Spelt p.tree True row (tokensOf text) [last] := by
  intro p
  obtain ⟨n, row, last, found, ends, spelt, made⟩ := fileSpelt clean
  exact ⟨n, row, last, ⟨found, made, fun k rest same => absurd same (fileHead made k rest)⟩, ends, spelt⟩

/- All nodes of a text without faults are made by the rules of the language, from its tokens. -/
theorem nodesComposed {fileName : String} {text : List Char} (clean : (parse fileName text).errors = []) :
    let p := parse fileName text
    ∀ i, p.tree.Under p.root i →
      ∃ n c row, Composed p.tree i n c row ∧ ∀ k, Has k row → k ∈ tokensOf text := by
  intro p i under
  obtain ⟨n, row, last, composed, _, spelt⟩ := fileComposed clean
  have forest := treeForest fileName text
  cases under with
  | self => exact ⟨n, .file, row, composed, fun _ => speltTaken spelt⟩
  | down child under =>
    exact speltComposed forest spelt (composedChildren forest composed ▸ child) under

/- Every token of a text without faults is a part of one of the nodes under the root. -/
theorem tokensBelong {fileName : String} {text : List Char} (clean : (parse fileName text).errors = [])
    {k : Token} (own : k ∈ tokensOf text) (plain : k.isEnd = false) :
    let p := parse fileName text
    Belongs p.tree p.root k := by
  intro p
  obtain ⟨n, row, last, composed, ends, spelt⟩ := fileComposed clean
  have forest := treeForest fileName text
  refine belongsBelow forest composed ((speltBelongs forest spelt k own).resolve_left fun atEnd => ?_)
  rw [List.mem_singleton.mp atEnd, ends] at plain
  cases plain

end Program
end CallGuard
