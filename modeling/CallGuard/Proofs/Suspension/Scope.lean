import CallGuard.Proofs.Parser.Placed
import CallGuard.Proofs.Phrase.Program
import CallGuard.Proofs.Tree.Innermost

/-! The suspensions of a function. Going down from its body finds the suspensions to which the body
belongs on the way up, no class in between, each once and in the order of the text. A body that is
itself a function is searched like any other, so its suspensions are those of the inner function. -/
namespace CallGuard

namespace Tree

/- A node that is marked begins before everything under it and behind it. -/
def Leads (t : Tree) (marked : NodeKind → Bool) (_ : NodeId) (n : Node) (mid : Nat) : Prop :=
  marked n.kind = true → n.start < mid ∧ ∀ c ∈ n.kids, ∀ m, t.get? c = some m → n.start < m.start

section
variable {t : Tree} {marked : NodeKind → Bool} {lo hi : Nat} {i j : NodeId}
  {ids visited : List NodeId}

theorem placedLater {fits : NodeId → Node → Nat → Prop} (forest : t.Forest)
    (placed : t.Placed fits lo ids hi) (member : i ∈ ids) (under : t.Under i j) : ∃ n m,
    t.get? i = some n ∧ t.get? j = some m ∧ n.start ≤ m.start := by
  obtain ⟨n, mid, found, _, _, fit, below⟩ := placedMem placed member
  have own : t.Placed fits n.start [i] mid :=
    .cons found (Nat.le_refl _) below fit (.nil (Nat.le_refl _))
  obtain ⟨m, _, found', behind, _⟩ := placedUnder forest under own List.mem_cons_self
  exact ⟨n, m, found, found', behind⟩

theorem leadsOrder (forest : t.Forest) (placed : t.Placed (t.Leads marked) lo ids hi)
    (walk : t.Walk ids visited) : visited.Pairwise fun a b => ∀ n m, t.get? a = some n →
      t.get? b = some m → marked n.kind = true → n.start < m.start := by
  induction placed generalizing visited with
  | nil =>
    cases walk
    exact .nil
  | @cons lo mid hi i n rest found behind below leads beside ihBelow ihBeside =>
    cases walk with
    | @cons _ _ inner outer down along =>
      rw [childrenKids forest found] at down
      -- What stands beside the subtree begins behind all of it.
      have after (b : NodeId) (outside : b ∈ outer) (m : Node) (there : t.get? b = some m) :
          mid ≤ m.start := by
        obtain ⟨k, member, under⟩ := (walkMem along).mp outside
        obtain ⟨m', _, found', behind', _⟩ := placedUnder forest under beside member
        cases found'.symm.trans there
        exact behind'
      refine List.pairwise_cons.mpr ⟨fun b member k m there there' mark => ?_,
        List.pairwise_append.mpr ⟨ihBelow down, ihBeside along,
          fun a inside b outside k m there there' mark => ?_⟩⟩
      · cases found.symm.trans there
        obtain ⟨early, first⟩ := leads mark
        rcases List.mem_append.mp member with inside | outside
        · obtain ⟨c, child, under⟩ := (walkMem down).mp inside
          obtain ⟨k, m', foundChild, found', behind'⟩ := placedLater forest below child under
          cases found'.symm.trans there'
          exact Nat.lt_of_lt_of_le (first c child k foundChild) behind'
        · exact Nat.lt_of_lt_of_le early (after b outside m there')
      · obtain ⟨c, child, under⟩ := (walkMem down).mp inside
        obtain ⟨k', mid', found', _, reach, leads', _⟩ := placedUnder forest under below child
        cases found'.symm.trans there
        exact Nat.lt_of_lt_of_le (Nat.lt_of_lt_of_le (leads' mark).1 reach) (after b outside m there')

end

/-! ### From above and from below -/

theorem functionForm {k : NodeKind} (form : k.form? = some .function) : k.isFunctionLike = true := by
  unfold NodeKind.form? at form
  split at form <;> first | rfl | cases form

section
variable {t : Tree} {f body i : NodeId} {visited : List NodeId}

/- The suspensions of a body are those of the body itself, if it is a function, and else of the
function that has it. -/
def owner (t : Tree) (f body : NodeId) : NodeId :=
  if t.kindIs NodeKind.isFunctionLike body then body else f

theorem functionHeld (forest : t.Forest) (held : t.functionBody? f = some body) :
    t.kindIs NodeKind.isFunctionLike f = true ∧ t.parent? body = some f := by
  obtain ⟨g, function, own⟩ := Option.bind_eq_some_iff.mp held
  unfold function? payload? at function
  split at function <;> cases function
  rename_i holds
  obtain ⟨k, found, form⟩ := heldKind forest holds
  refine ⟨by rw [kindIs, found]; exact functionForm form, heldParent forest holds ?_⟩
  simp [Payload.slots, own]

/- Being kept out of functions on the way down is having the owner as the function around. -/
theorem ownerInnermost (linked : t.Linked) (function : t.kindIs NodeKind.isFunctionLike f = true)
    (parent : t.parent? body = some f) (under : t.Under body i)
    (plain : t.kindIs NodeKind.isFunctionLike i = false) :
    t.Innermost (t.kindIs NodeKind.isFunctionLike) i (t.owner f body) ↔
      ∀ k, t.kindIs NodeKind.isFunctionLike k = true → t.Under body k → t.Under k i → k = body := by
  have differ {k : NodeId} (holds : t.kindIs NodeKind.isFunctionLike k = true) : k ≠ i := by
    rintro rfl
    rw [holds] at plain
    cases plain
  obtain ⟨above, apart⟩ := parentAbove linked parent
  unfold owner
  constructor
  · rintro inner k holds below around
    have outer := inner.nearest k holds around (differ holds)
    split at outer
    · exact Nat.le_antisymm (underLe linked below) (underLe linked outer)
    · have low := underLe linked below
      have high := underLe linked outer
      have step := underLe linked above
      exact absurd (Nat.le_antisymm (Nat.le_trans high low) step) apart
  · intro free
    split
    · rename_i holds
      refine ⟨holds, under, differ holds, fun k function around _ => ?_⟩
      rcases underLinear linked around under with outside | inside
      · exact outside
      · exact free k function inside around ▸ .self k
    · rename_i other
      refine ⟨function, underTrans above under, differ function, fun k holds around _ => ?_⟩
      have apart' : k ≠ body := by
        rintro rfl
        exact other holds
      rcases underLinear linked around under with outside | inside
      · exact (underParent linked outside parent).resolve_left apart'
      · exact absurd (free k holds inside around) apart'

/- The scan of a body keeps out of other functions and of classes. It meets a node if it has not visited
too many others by then. -/
def Scanned (t : Tree) (body i : NodeId) : Prop :=
  ∃ visited, t.Tour (fun j => j == body || !t.kindIs NodeKind.ownsSuspensions j) [body] visited ∧
    i ∈ visited.take maxVisits

/- The nodes that the scan of a body visits, as far as it comes. -/
theorem suspensionsVisited (linked : t.Linked) (walk : t.Walk [body] visited) :
    ∃ part : List NodeId, part.Sublist visited ∧
      t.suspensions body = ((part.take maxVisits).filterMap t.get?).filter (·.kind.isSuspension) ∧
      (∀ i, t.Scanned body i ↔ i ∈ part.take maxVisits) ∧
      ∀ i, i ∈ part ↔ t.Under body i ∧ ∀ k, t.kindIs NodeKind.ownsSuspensions k = true →
        t.Under body k → t.Under k i → k = body ∨ k = i := by
  let enters (i : NodeId) : Bool := i == body || !t.kindIs NodeKind.ownsSuspensions i
  obtain ⟨part, tour, sublist⟩ := tourPart walk enters
  refine ⟨part, sublist, by rw [suspensions, preorderTake tour],
    fun i => ⟨fun ⟨other, also, taken⟩ => ?_, fun taken => ⟨part, tour, taken⟩⟩, fun i => ?_⟩
  · rwa [← preorderTake tour, preorderTake also]
  rw [tourMem tour]
  simp only [List.mem_singleton, exists_eq_left]
  rw [reachesUnder linked]
  refine and_congr_right fun _ => ⟨fun open' k owns below around => ?_,
    fun free k below around other => ?_⟩
  · by_contra outside
    obtain ⟨apart, differ⟩ := not_or.mp outside
    have entered := open' k below around differ
    simp [enters, apart, owns] at entered
  · cases owns : t.kindIs NodeKind.ownsSuspensions k with
    | false => simp [enters, owns]
    | true => simp [enters, (free k owns below around).resolve_right other]

theorem ownsSplit (k : NodeId) : t.kindIs NodeKind.ownsSuspensions k = true ↔
    t.kindIs NodeKind.isFunctionLike k = true ∨ t.kind? k = some .classDeclaration := by
  unfold kindIs NodeKind.ownsSuspensions
  cases t.kind? k <;> simp

theorem suspensionPlain {n : Node} (found : t.get? i = some n) (mark : n.kind.isSuspension = true) :
    t.kindIs NodeKind.isFunctionLike i = false ∧ t.kind? i ≠ some .classDeclaration := by
  rw [kindIs, kind?, found]
  show n.kind.isFunctionLike = false ∧ some n.kind ≠ some .classDeclaration
  generalize n.kind = kind at mark
  unfold NodeKind.isSuspension at mark
  split at mark
  · exact ⟨rfl, by rintro ⟨⟩⟩
  · exact ⟨rfl, by rintro ⟨⟩⟩
  · cases mark

theorem sublistTake {part whole : List NodeId} {limit : Nat} (sublist : part.Sublist whole) (once : whole.Nodup)
    (own : i ∈ part) (taken : i ∈ whole.take limit) : i ∈ part.take limit := by
  induction sublist generalizing limit with
  | slnil => cases own
  | @cons part whole a sublist ih =>
    obtain ⟨apart, once⟩ := List.nodup_cons.mp once
    cases limit with
    | zero => cases taken
    | succ limit =>
      rcases List.mem_cons.mp taken with rfl | taken
      · exact absurd (sublist.subset own) apart
      · exact List.take_subset_take_left part (Nat.le_succ limit) (ih once own taken)
  | @cons_cons part whole a sublist ih =>
    cases limit with
    | zero => cases taken
    | succ limit =>
      rw [List.take_succ_cons]
      rcases List.mem_cons.mp own with rfl | own
      · exact List.mem_cons_self
      · obtain ⟨apart, once⟩ := List.nodup_cons.mp once
        rcases List.mem_cons.mp taken with rfl | taken
        · exact List.mem_cons_self
        · exact List.mem_cons_of_mem a (ih once own taken)

/- A suspension that the scan meets is listed. -/
theorem suspensionsMet (linked : t.Linked) {n : Node} (scanned : t.Scanned body i)
    (found : t.get? i = some n) (mark : n.kind.isSuspension = true) : n ∈ t.suspensions body := by
  obtain ⟨visited, walk⟩ := walkExists linked body
  obtain ⟨part, _, same, scans, _⟩ := suspensionsVisited linked walk
  rw [same, List.mem_filter, List.mem_filterMap]
  exact ⟨⟨i, (scans i).mp scanned, found⟩, mark⟩

/- Which nodes the suspensions of a body are, as far as the scan comes in a walk around the body. -/
theorem suspensionsTaken {root : NodeId} (forest : t.Forest) (linked : t.Linked) (shallow : t.Shallow)
    (held : t.functionBody? f = some body) (walk : t.Walk [root] visited) (reached : t.Under root body) :
    ∃ part : List NodeId, part.Sublist visited ∧
      t.suspensions body = ((part.take maxVisits).filterMap t.get?).filter (·.kind.isSuspension) ∧
      (∀ i, t.Scanned body i ↔ i ∈ part.take maxVisits) ∧
      ∀ i n, t.get? i = some n → n.kind.isSuspension = true → (i ∈ part ↔ t.Under body i ∧
        t.enclosingFunction? i = some (t.owner f body) ∧
        ∀ k, t.kind? k = some .classDeclaration → t.Under body k → t.Under k i → k = body) := by
  obtain ⟨function, parent⟩ := functionHeld forest held
  obtain ⟨inner, below, within⟩ := walkBelow walk List.mem_cons_self reached
  obtain ⟨part, sublist, same, scans, members⟩ := suspensionsVisited linked below
  refine ⟨part, sublist.trans within, same, scans, fun i n found mark => ?_⟩
  obtain ⟨plain, other⟩ := suspensionPlain found mark
  rw [members]
  refine and_congr_right fun under => ?_
  have around : t.enclosingFunction? i = some (t.owner f body) ↔ _ :=
    (ancestorFound forest linked shallow).trans (ownerInnermost linked function parent under plain)
  rw [around]
  constructor
  · intro free
    refine ⟨fun k holds below above => ?_, fun k holds below above => ?_⟩
    · refine (free k ((ownsSplit k).mpr (.inl holds)) below above).resolve_right ?_
      rintro rfl
      rw [holds] at plain
      cases plain
    · refine (free k ((ownsSplit k).mpr (.inr holds)) below above).resolve_right ?_
      rintro rfl
      exact other holds
  · rintro ⟨functions, classes⟩ k owns below above
    rcases (ownsSplit k).mp owns with holds | holds
    · exact .inl (functions k holds below above)
    · exact .inl (classes k holds below above)

theorem suspensionsSound (forest : t.Forest) (linked : t.Linked) (shallow : t.Shallow)
    (held : t.functionBody? f = some body) {n : Node} (member : n ∈ t.suspensions body) :
    ∃ i, t.Scanned body i ∧ t.get? i = some n ∧ n.kind.isSuspension = true ∧ t.Under body i ∧
      t.enclosingFunction? i = some (t.owner f body) ∧
      ∀ k, t.kind? k = some .classDeclaration → t.Under body k → t.Under k i → k = body := by
  obtain ⟨visited, walk⟩ := walkExists linked body
  obtain ⟨part, _, same, scans, members⟩ := suspensionsTaken forest linked shallow held walk (.self body)
  rw [same, List.mem_filter, List.mem_filterMap] at member
  obtain ⟨⟨i, taken, found⟩, mark⟩ := member
  exact ⟨i, (scans i).mpr taken, found, mark,
    (members i n found mark).mp (List.mem_of_mem_take taken)⟩

/- The scan of a body comes at least as far as a walk around the body. -/
theorem scannedReached {root : NodeId} (forest : t.Forest) (linked : t.Linked) (shallow : t.Shallow)
    (held : t.functionBody? f = some body) (walk : t.Walk [root] visited) (reached : t.Under root body)
    {n : Node} (found : t.get? i = some n) (mark : n.kind.isSuspension = true) (under : t.Under body i)
    (owned : t.enclosingFunction? i = some (t.owner f body))
    (free : ∀ k, t.kind? k = some .classDeclaration → t.Under body k → t.Under k i → k = body)
    (taken : i ∈ visited.take maxVisits) : t.Scanned body i := by
  obtain ⟨part, sublist, _, scans, members⟩ := suspensionsTaken forest linked shallow held walk reached
  have once := walkOnce linked walk (List.pairwise_singleton _ _)
  have own := (members i n found mark).mpr ⟨under, owned, free⟩
  exact (scans i).mpr (sublistTake sublist once own taken)

theorem suspensionsExact (forest : t.Forest) (linked : t.Linked) (shallow : t.Shallow)
    (few : {i | t.Under body i}.ncard ≤ maxVisits) (held : t.functionBody? f = some body) (n : Node) :
    n ∈ t.suspensions body ↔ ∃ i, t.get? i = some n ∧ n.kind.isSuspension = true ∧ t.Under body i ∧
      t.enclosingFunction? i = some (t.owner f body) ∧
      ∀ k, t.kind? k = some .classDeclaration → t.Under body k → t.Under k i → k = body := by
  constructor
  · intro member
    obtain ⟨i, _, rest⟩ := suspensionsSound forest linked shallow held member
    exact ⟨i, rest⟩
  · rintro ⟨i, found, mark, under, owned, free⟩
    obtain ⟨visited, walk⟩ := walkExists linked body
    have enough : visited.length ≤ maxVisits := walkLength linked walk ▸ few
    refine suspensionsMet linked (scannedReached forest linked shallow held walk (.self body) found mark
      under owned free ?_) found mark
    rw [List.take_of_length_le enough]
    exact (walkMem walk).mpr ⟨body, List.mem_cons_self, under⟩

end
end Tree

namespace Phrase
variable {t : Tree} {clean : Prop} {row : List Part} {ahead after : List Token}

/- A suspension takes a token before what is under it. -/
theorem speltPlaced (spelt : Spelt t clean row ahead after)
    (sorted : ahead.Pairwise fun a b => a.start < b.start) (some : after ≠ []) :
    ∃ a ahead' b after' lo, ahead = a :: ahead' ∧ after = b :: after' ∧ a.start ≤ lo ∧
      ((∃ k rest, row = .token k :: rest) → a.start < lo) ∧
      t.Placed (t.Leads NodeKind.isSuspension) lo (nodes row) b.start := by
  induction spelt with
  | nil ahead =>
    obtain ⟨a, ahead', rfl⟩ := List.exists_cons_of_ne_nil some
    exact ⟨a, ahead', a, ahead', a.start, rfl, rfl, Nat.le_refl _, nofun, .nil (Nat.le_refl _)⟩
  | @token k row ahead after rest ih =>
    obtain ⟨first, later⟩ := List.pairwise_cons.mp sorted
    obtain ⟨a, ahead', b, after', lo, rfl, rfl, behind, _, placed⟩ := ih later some
    have further := Nat.lt_of_lt_of_le (first a List.mem_cons_self) behind
    exact ⟨k, _, b, after', lo, rfl, rfl, Nat.le_of_lt further, fun _ => further, placed⟩
  | @skipped k row ahead after rest ih =>
    obtain ⟨first, later⟩ := List.pairwise_cons.mp sorted
    obtain ⟨a, ahead', b, after', lo, rfl, rfl, behind, _, placed⟩ := ih later some
    have further := Nat.lt_of_lt_of_le (first a List.mem_cons_self) behind
    exact ⟨k, _, b, after', lo, rfl, rfl, Nat.le_of_lt further, fun _ => further, placed⟩
  | @node c i n inner row first ahead mid after found place fits inside rest ihInside ihRest =>
    have left : mid.Pairwise fun a b => a.start < b.start := sorted.sublist inside.taken.sublist
    have more : mid ≠ [] := by
      rintro rfl
      exact some (List.suffix_nil.mp rest.taken)
    obtain ⟨a, ahead', b, mid', lo, same, rfl, behind, early, below⟩ := ihInside sorted more
    obtain ⟨b', _, d, after', lo', same', rfl, behind', _, beside⟩ := ihRest left some
    cases same
    cases same'
    have inner' := Tree.placedPart below fits.kids
    refine ⟨first, ahead, d, after', n.start, rfl, rfl, Nat.le_of_eq place.symm, nofun,
      .cons found (Nat.le_refl _) (Tree.placedFrom inner' (place ▸ behind)) (fun mark => ?_)
        (Tree.placedFrom beside behind')⟩
    have first' := early (fits.own mark)
    rw [place]
    refine ⟨Nat.lt_of_lt_of_le first' (Tree.placedLe below), fun c child m there => ?_⟩
    obtain ⟨m', _, there', further, _⟩ := Tree.placedMem inner' child
    cases there'.symm.trans there
    exact Nat.lt_of_lt_of_le first' further

end Phrase

namespace Tree
variable {t : Tree} {body : NodeId}

theorem suspensionsOrder (forest : t.Forest) (linked : t.Linked) {lo hi : Nat}
    (placed : t.Placed (t.Leads NodeKind.isSuspension) lo [body] hi) :
    (t.suspensionPoints body).Pairwise (· < ·) := by
  obtain ⟨visited, walk⟩ := walkExists linked body
  obtain ⟨part, sublist, same, _, _⟩ := suspensionsVisited linked walk
  have order := (leadsOrder forest placed walk).sublist ((List.take_sublist maxVisits part).trans sublist)
  have nodes : ((part.take maxVisits).filterMap t.get?).Pairwise fun n m =>
      n.kind.isSuspension = true → n.start < m.start := by
    refine List.pairwise_filterMap.mpr (order.imp fun {a b} less n found m found' => ?_)
    exact less n m found found'
  rw [suspensionPoints, same, List.pairwise_map, List.pairwise_filter]
  exact nodes.imp fun less mark _ => less mark

end Tree

namespace Program
open Phrase

theorem rootLeads (fileName : String) (text : List Char) :
    let p := parse fileName text
    ∃ hi, p.tree.Placed (p.tree.Leads NodeKind.isSuspension) 0 [p.root] hi := by
  intro p
  let file := Node.holding .sourceFile 0 (Text.byteLength text)
    (.sourceFile ⟨(statements (tokensOf text)).1, fileName, text⟩)
  obtain ⟨row, last, _, spelt, named, _⟩ := statementsSpelt text
  have sorted : (tokensOf text).Pairwise fun a b => a.start < b.start := Token.rowSorted (tokensRow text)
  obtain ⟨_, _, b, _, lo, _, _, _, _, placed⟩ :=
    speltPlaced (spelt.later (Tree.growsAdd _ file) id) sorted (List.cons_ne_nil _ _)
  obtain ⟨m, found, same⟩ := Tree.addNew (statements (tokensOf text)).2.tree file
  refine ⟨b.start, Tree.placedAdd found same ?_ fun mark => ?_⟩
  · exact Tree.placedFrom (Tree.placedPart placed named) (Nat.zero_le _)
  · rw [same.kind] at mark
    cases mark

/- The suspensions of a function stand where those of its body begin that no other function and no
class of the body keeps for itself, in the order of the text. -/
theorem suspensionScope (fileName : String) (text : List Char) (f body : NodeId) :
    let p := parse fileName text
    let t := p.tree
    t.functionBody? f = some body → t.Under p.root f → t.Shallow →
      {i | t.Under body i}.ncard ≤ maxVisits →
    (t.suspensionPoints body).Pairwise (· < ·) ∧
    ∀ start, start ∈ t.suspensionPoints body ↔ ∃ i n, t.get? i = some n ∧ n.start = start ∧
      n.kind.isSuspension = true ∧ t.Under body i ∧
      t.enclosingFunction? i = some (t.owner f body) ∧
      ∀ k, t.kind? k = some .classDeclaration → t.Under body k → t.Under k i → k = body := by
  intro p t held under shallow few
  have forest : t.Forest := treeForest fileName text
  have linked : t.Linked := treeChildren fileName text
  refine ⟨?_, fun start => ?_⟩
  · have child := linked.child (Tree.functionHeld forest held).2
    obtain ⟨hi, placed⟩ := rootLeads fileName text
    obtain ⟨n, mid, found, _, _, leads, below⟩ := Tree.placedUnder forest
      (Tree.underTrans under (.down child (.self body))) placed List.mem_cons_self
    exact Tree.suspensionsOrder forest linked
      (.cons found (Nat.le_refl _) below leads (.nil (Nat.le_refl _)))
  · rw [Tree.suspensionPoints, List.mem_map]
    constructor
    · rintro ⟨n, member, rfl⟩
      obtain ⟨i, found, mark, rest⟩ := (Tree.suspensionsExact forest linked shallow few held n).mp member
      exact ⟨i, n, found, rfl, mark, rest⟩
    · rintro ⟨i, n, found, place, mark, rest⟩
      exact ⟨n, (Tree.suspensionsExact forest linked shallow few held n).mpr ⟨i, found, mark, rest⟩, place⟩

/- The outer function lists what the inner one owns. -/
example :
    let t := (parse "input.ts" "x = () => async () => { await y; };".toList).tree
    t.functionBody? 6 = some 5 ∧ t.suspensionPoints 5 = [24] ∧ t.owner 6 5 = 5 := by decide +kernel

end Program
end CallGuard
