import CallGuard.Lint
import CallGuard.Proofs.Fix.Applying
import CallGuard.Proofs.Fix.Tokens
import CallGuard.Proofs.Fix.Wrapping
import CallGuard.Proofs.Parser.Spans
import CallGuard.Proofs.Rule.Evaluation

/-! What the fixes of an analysis touch. A fix replaces one node, or it only inserts text before,
behind and between the lines of one statement. So no fix is ever made in part, and fixes that only
insert never get into each other's way. One that replaces a node clashes with fixes under that node,
and with a wrap of a statement around it that has a line beginning inside the node. -/
namespace CallGuard
open Text (Boundary byteLength)

namespace Text

/- A line feed stands right before the offset. -/
def LineStart (text : List Char) (offset : Nat) : Prop :=
  ∃ before after, text = before ++ '\n' :: after ∧ offset = byteLength before + 1

theorem breaksStart {front piece : List Char} (rest : List Char) {pos : Nat}
    (own : pos ∈ LineMap.startsAfterBreaks (byteLength front) piece) :
    LineStart (front ++ (piece ++ rest)) pos ∧ Boundary (front ++ (piece ++ rest)) pos := by
  induction piece generalizing front with
  | nil => cases own
  | cons c piece ih =>
    have wide : byteLength front + c.utf8Size = byteLength (front ++ [c]) := by simp [byteLength]
    have whole : front ++ (c :: piece ++ rest) = (front ++ [c]) ++ (piece ++ rest) := by simp
    rw [LineMap.startsAfterBreaks, wide] at own
    rw [whole]
    split at own
    · rename_i feed
      subst feed
      rcases List.mem_cons.mp own with rfl | later
      · exact ⟨⟨front, piece ++ rest, by simp, by simp [byteLength]; rfl⟩, ⟨front ++ ['\n'], _, rfl, rfl⟩⟩
      · exact ih later
    · exact ih own

end Text

/-! ### Answers -/

section
variable {α β : Type} {g : α → Except Breakdown β} {xs : List α}

theorem mapAnswered {ys : List β} (answer : xs.mapM g = .ok ys) : ∀ y ∈ ys, ∃ a ∈ xs, g a = .ok y := by
  induction xs generalizing ys with
  | nil =>
    cases answer
    nofun
  | cons a xs ih =>
    rw [List.mapM_cons] at answer
    obtain ⟨y, first, answer⟩ := bindAnswered.mp answer
    obtain ⟨more, rest, answer⟩ := bindAnswered.mp answer
    cases answer
    refine List.forall_mem_cons.mpr ⟨⟨a, List.mem_cons_self, first⟩, fun z own => ?_⟩
    obtain ⟨b, member, same⟩ := ih rest z own
    exact ⟨b, List.mem_cons_of_mem a member, same⟩

end

namespace Fix
open TextEdit (Clear Carried)

/- The edits of a fix around a node: the node is replaced, or text is put before and behind it and at
the heads of its lines. -/
inductive Covers (text : List Char) (n : Node) : (replaced : Bool) → List TextEdit → Prop where
  | replaces {new : String} (order : n.start ≤ n.stop) (begins : Boundary text n.start)
      (ends : Boundary text n.stop) : Covers text n true [⟨n.start, n.width, new⟩]
  | wraps {edits : List TextEdit} (empty : ∀ e ∈ edits, e.length = 0)
      (fits : ∀ e ∈ edits, Boundary text e.start)
      (place : ∀ e ∈ edits, e.start = n.start ∨ e.start = n.stop ∨
        n.start < e.start ∧ e.start ≤ n.stop ∧ Text.LineStart text e.start) : Covers text n false edits

variable {text : List Char} {t : Tree} {n m : Node} {i j : NodeId} {site : CallSite} {spec : GuardSpec}
  {edits more : List TextEdit} {replaced also : Bool} {guard : String}

/-! ### One fix -/

theorem insertsClear {a b : TextEdit} (one : a.length = 0) (two : b.length = 0) : Clear a b := by
  simp only [Clear, overlaps, one, two, Nat.add_zero, Bool.and_eq_false_iff, decide_eq_false_iff_not]
  omega

theorem coversSound (covers : Covers text n replaced edits) : Sound text edits := by
  cases covers with
  | replaces order begins ends =>
    refine ⟨List.forall_mem_singleton.mpr ⟨begins, ?_⟩, List.pairwise_singleton _ _⟩
    rwa [TextEdit.stop, Node.width, Nat.add_sub_of_le order]
  | wraps empty fits _ =>
    refine ⟨fun e own => ⟨fits e own, ?_⟩, List.Pairwise.imp_of_mem (fun {a b} one two _ =>
      insertsClear (empty a one) (empty b two)) (List.pairwise_of_forall fun _ _ => trivial)⟩
    rw [TextEdit.stop, empty e own]
    exact fits e own

/- Text is only changed between the two ends of the node. -/
theorem coversPlace (covers : Covers text n replaced edits) (order : n.start ≤ n.stop) :
    ∀ e ∈ edits, n.start ≤ e.start ∧ e.stop ≤ n.stop := by
  cases covers with
  | replaces =>
    refine List.forall_mem_singleton.mpr ⟨Nat.le_refl _, Nat.le_of_eq ?_⟩
    exact Nat.add_sub_of_le order
  | wraps empty _ place =>
    intro e own
    rw [TextEdit.stop, empty e own]
    rcases place e own with same | same | between <;> omega

/-! ### Two fixes -/

theorem distantSymm (distant : Distant edits more) : Distant more edits :=
  fun a own e mine => TextEdit.clearSymm (distant e mine a own)

theorem wrapsDistant (one : Covers text n false edits) (two : Covers text m false more) :
    Distant edits more := by
  cases one with
  | wraps empty =>
    cases two with
    | wraps empty' => exact fun a own e mine => insertsClear (empty' e mine) (empty a own)

theorem besideDistant (one : Covers text n replaced edits) (two : Covers text m also more)
    (order : n.start ≤ n.stop) (order' : m.start ≤ m.stop) (beside : n.stop ≤ m.start) :
    Distant edits more := by
  intro a own e mine
  have left := coversPlace one order a own
  have right := coversPlace two order' e mine
  simp only [Clear, overlaps, TextEdit.stop, Bool.and_eq_false_iff, decide_eq_false_iff_not] at *
  omega

/- A wrap around a node that is replaced, where no line begins inside that node. -/
theorem aroundDistant (one : Covers text n true edits) (two : Covers text m false more)
    (before : m.start ≤ n.start) (behind : n.stop ≤ m.stop)
    (line : ∀ p, Text.LineStart text p → n.start < p → n.stop ≤ p) : Distant edits more := by
  cases one with
  | replaces order =>
    cases two with
    | wraps empty _ place =>
      intro a own e mine
      cases List.mem_singleton.mp own
      have none := empty e mine
      have outside : e.start ≤ n.start ∨ n.stop ≤ e.start := by
        rcases place e mine with same | same | ⟨_, _, head⟩
        · exact .inl (same ▸ before)
        · exact .inr (same ▸ behind)
        · exact (Nat.lt_or_ge n.start e.start).symm.imp_right (line e.start head)
      simp only [Clear, overlaps, Node.width, none, Bool.and_eq_false_iff, decide_eq_false_iff_not,
        Nat.add_sub_of_le order]
      omega

/- Where a node is replaced there is no room for a fix under it, nor for a wrap above that indents a
line beginning inside it. -/
def Obstructs (t : Tree) (text : List Char) (i : NodeId) (n : Node) (replaced : Bool) (j : NodeId) : Prop :=
  replaced = true ∧ (t.Under i j ∨
    t.Under j i ∧ ∃ pos, Text.LineStart text pos ∧ n.start < pos ∧ pos < n.stop)

theorem underDistant {root : NodeId} (nested : t.Nested root) (reached : t.Under root i)
    (under : t.Under i j) (found : t.get? i = some n) (found' : t.get? j = some m)
    (one : Covers text n replaced edits) (two : Covers text m also more) :
    Distant edits more ∨ Obstructs t text i n replaced j ∨ Obstructs t text j m also i := by
  cases replaced with
  | true => exact .inr (.inl ⟨rfl, .inl under⟩)
  | false =>
    cases also with
    | false => exact .inl (wrapsDistant one two)
    | true =>
      by_cases line : ∃ pos, Text.LineStart text pos ∧ m.start < pos ∧ pos < m.stop
      · exact .inr (.inr ⟨rfl, .inr ⟨under, line⟩⟩)
      · obtain ⟨before, behind⟩ := Tree.nestedInside nested reached under found found'
        refine .inl (distantSymm (aroundDistant two one before behind fun pos head late => ?_))
        exact Nat.not_lt.mp fun early => line ⟨pos, head, late, early⟩

/-! ### What is covered -/

theorem wrapCovers {condition : String} {braced : Bool}
    (wrapped : wrapStatement? text n.start n.stop condition braced = some edits) :
    Covers text n false edits := by
  obtain ⟨before, statement, behind, rfl, starts, stops⟩ : ∃ before statement behind,
      text = before ++ (statement ++ behind) ∧ n.start = byteLength before ∧
        n.stop = byteLength before + byteLength statement := by
    obtain ⟨⟨before, more⟩, first, rest⟩ := Option.bind_eq_some_iff.mp wrapped
    obtain ⟨rfl, starts⟩ := Text.splitAtSpec first
    dsimp only at rest
    split at rest
    · obtain ⟨⟨statement, behind⟩, second, _⟩ := Option.bind_eq_some_iff.mp rest
      obtain ⟨rfl, stops⟩ := Text.splitAtSpec second
      exact ⟨before, statement, behind, rfl, starts.symm, by omega⟩
    · cases rest
  rw [starts, stops] at wrapped
  obtain ⟨lead, trail, inner, rfl, _, form⟩ := wrapForm wrapped
  have begins : Boundary (before ++ (statement ++ behind)) n.start := ⟨before, _, rfl, starts.symm⟩
  have ends : Boundary (before ++ (statement ++ behind)) n.stop :=
    ⟨before ++ statement, behind, by simp, by rw [Text.byteLengthAppend, stops]⟩
  have line : ∀ e ∈ inner, e.length = 0 ∧ Boundary (before ++ (statement ++ behind)) e.start ∧
      n.start < e.start ∧ e.start ≤ n.stop ∧ Text.LineStart (before ++ (statement ++ behind)) e.start := by
    rcases form with rfl | ⟨_, unit, _, rfl⟩
    · nofun
    · intro e own
      obtain ⟨pos, place, rfl⟩ := List.mem_map.mp own
      obtain ⟨line, fits⟩ := Text.breaksStart behind place
      obtain ⟨left, right⟩ := LineMap.breaksPlace place
      exact ⟨rfl, fits, starts ▸ left, stops ▸ right, line⟩
  have each {good : TextEdit → Prop} (first : good ⟨byteLength before, 0, lead⟩)
      (own : ∀ e ∈ inner, good e) (last : good ⟨byteLength before + byteLength statement, 0, trail⟩) :
      ∀ e ∈ (⟨byteLength before, 0, lead⟩ : TextEdit) ::
        (inner ++ [⟨byteLength before + byteLength statement, 0, trail⟩]), good e :=
    List.forall_mem_cons.mpr ⟨first, List.forall_mem_append.mpr ⟨own, List.forall_mem_singleton.mpr last⟩⟩
  exact .wraps (each rfl (fun e own => (line e own).1) rfl)
    (each (starts ▸ begins) (fun e own => (line e own).2.1) (stops ▸ ends))
    (each (.inl starts.symm) (fun e own => .inr (.inr (line e own).2.2)) (.inr (.inl stops.symm)))

theorem wrapOrder {start stop : Nat} {condition : String} {braced : Bool}
    (wrapped : wrapStatement? text start stop condition braced = some edits) : start ≤ stop := by
  obtain ⟨⟨before, more⟩, _, rest⟩ := Option.bind_eq_some_iff.mp wrapped
  by_contra late
  dsimp only at rest
  rw [if_neg late] at rest
  cases rest

theorem replaceCovers {written : List Char} (found : t.get? i = some n) (own : t.textAt? i = some written)
    (new : String) : n.start ≤ n.stop ∧ Covers (t.text?.getD []) n true [⟨n.start, n.width, new⟩] := by
  obtain ⟨m, found', rest⟩ := Option.bind_eq_some_iff.mp own
  cases found.symm.trans found'
  obtain ⟨text, same, slice⟩ := Option.bind_eq_some_iff.mp rest
  rw [same, Option.getD_some]
  unfold Text.slice? at slice
  split at slice
  · rename_i order
    obtain ⟨⟨before, more⟩, first, rest⟩ := Option.bind_eq_some_iff.mp slice
    obtain ⟨⟨piece, behind⟩, second, _⟩ := Option.bind_eq_some_iff.mp rest
    obtain ⟨rfl, starts⟩ := Text.splitAtSpec first
    obtain ⟨rfl, stops⟩ := Text.splitAtSpec second
    refine ⟨order, .replaces order ⟨before, _, rfl, starts⟩ ⟨before ++ piece, behind, by simp, ?_⟩⟩
    rw [Text.byteLengthAppend]
    omega
  · cases slice

/- A call, or the `await` that stands right before it. -/
inductive Awaited (t : Tree) (i : NodeId) : NodeId → Prop where
  | bare : Awaited t i i
  | await {above : NodeId} (parent : t.parent? i = some above)
      (kind : t.kind? above = some .awaitExpression) : Awaited t i above

/- What a fix for the call `i` may cover: the call itself, the statement that consists of it, or the
body of an arrow function that consists of it. An awaited call counts as a whole in the latter two. -/
inductive Hosts (t : Tree) (i : NodeId) : NodeId → Prop where
  | call : Hosts t i i
  | statement {whole j : NodeId} (around : Awaited t i whole)
      (kind : t.kind? j = some .expressionStatement)
      (own : t.expressionStatement? (some j) = some (some whole)) : Hosts t i j
  | body {j holder : NodeId} {f : Function} (around : Awaited t i j)
      (kind : t.kind? holder = some .arrowFunction) (own : t.function? (some holder) = some f)
      (body : f.body = some j) : Hosts t i j

theorem awaitedAbove {whole : NodeId} (linked : t.Linked) (around : Awaited t i whole) :
    t.Under whole i := by
  cases around with
  | bare => exact .self i
  | await parent _ => exact .down (linked.child parent) (.self i)

theorem hostsAbove (forest : t.Forest) (linked : t.Linked) (hosts : Hosts t i j) : t.Under j i := by
  cases hosts with
  | call => exact .self i
  | body around _ _ _ => exact awaitedAbove linked around
  | @statement whole _ around _ own =>
    have held : t.payloadAt? j = some (.expressionStatement (some whole)) := by
      unfold Tree.expressionStatement? at own
      split at own <;> cases own
      assumption
    have parent := Tree.heldParent forest held (List.mem_singleton_self _)
    exact .down (linked.child parent) (awaitedAbove linked around)

theorem statementKind {inner : Slot} (forest : t.Forest)
    (held : t.payloadAt? i = some (.expressionStatement inner)) : t.kind? i = some .expressionStatement := by
  obtain ⟨k, found, form⟩ := Tree.heldKind forest held
  rw [found]
  change k.form? = some .expressionStatement at form
  unfold NodeKind.form? at form
  split at form <;> cases form
  rfl

theorem conditionCovers {condition : String} (forest : t.Forest)
    (wrote : conditionEdits? t (t.text?.getD []) i condition = some edits) :
    ∃ j n replaced, Hosts t i j ∧ t.get? j = some n ∧ n.start ≤ n.stop ∧
      Covers (t.text?.getD []) n replaced edits := by
  obtain ⟨above, parent, rest⟩ := Option.bind_eq_some_iff.mp wrote
  have around : Awaited t i (if t.kindIs (· == .awaitExpression) above then above else i) := by
    split
    · rename_i awaits
      obtain ⟨k, kind, same⟩ := (Option.any_eq_true _ _).mp awaits
      exact .await parent (kind.trans (congrArg some (beq_iff_eq.mp same)))
    · exact .bare
  dsimp only at rest
  generalize (if t.kindIs (· == .awaitExpression) above then above else i) = whole at rest around
  split at rest
  all_goals
    obtain ⟨holder, _, rest⟩ := Option.bind_eq_some_iff.mp rest
    obtain ⟨n, found, rest⟩ := Option.bind_eq_some_iff.mp rest
    split at rest
    · rename_i inner held
      split at rest
      · rename_i same
        have own : t.expressionStatement? (some holder) = some (some whole) := by
          rw [Tree.expressionStatement?, Tree.payload?, Option.bind_some, held, beq_iff_eq.mp same]
        exact ⟨holder, n, false, .statement around (statementKind forest held) own, found,
          wrapOrder rest, wrapCovers rest⟩
      · cases rest
    · rename_i f held
      split at rest
      · rename_i arrow
        obtain ⟨kind, body⟩ := Bool.and_eq_true_iff.mp arrow
        have own : t.function? (some holder) = some f := by
          rw [Tree.function?, Tree.payload?, Option.bind_some, held]
        have kind : t.kind? holder = some .arrowFunction := by
          rw [Tree.kind?, found, Option.map_some, beq_iff_eq.mp kind]
        obtain ⟨e, found, rest⟩ := Option.bind_eq_some_iff.mp rest
        obtain ⟨written, text, rest⟩ := Option.bind_eq_some_iff.mp rest
        cases rest
        exact ⟨whole, e, true, .body around kind own (beq_iff_eq.mp body), found,
          replaceCovers found text _⟩
      · cases rest
    · cases rest

/- A fix for a call covers the call or what hosts it. -/
theorem guardCovers (forest : t.Forest)
    (wrote : guardEdits? t site spec = some (edits, guard)) :
    ∃ j n replaced, Hosts t site.node j ∧ t.get? j = some n ∧ n.start ≤ n.stop ∧
      Covers (t.text?.getD []) n replaced edits := by
  unfold guardEdits? at wrote
  split at wrote
  · obtain ⟨n, found, rest⟩ := Option.bind_eq_some_iff.mp wrote
    obtain ⟨leaf, own, rest⟩ := Option.bind_eq_some_iff.mp rest
    cases rest
    exact ⟨site.node, n, true, .call, found, replaceCovers found own _⟩
  · obtain ⟨predicate, _, rest⟩ := Option.bind_eq_some_iff.mp wrote
    obtain ⟨more, own, rest⟩ := Option.bind_eq_some_iff.mp rest
    cases rest
    exact conditionCovers forest own

end Fix

namespace Analysis
variable {a : Analysis} {rule : Rule} {d : Diagnostic} {fix : Fix} {site : CallSite}

theorem aboutNode {m : OperationMatcher} {i : NodeId} (about : a.matchOperation? m i = .ok (some site)) :
    site.node = i := Tree.siteNode (matchSite about)

theorem locateHolds {start stop : Nat} {candidates : List NodeId}
    (located : a.locate? rule start stop candidates = .ok (some site)) :
    a.matchOperation? rule.matcher site.node = .ok (some site) ∧
      ∃ n, a.tree.get? site.node = some n ∧ n.start = start ∧ n.stop = stop := by
  induction candidates with
  | nil => cases located
  | cons i rest ih =>
    unfold locate? at located
    split at located
    · rename_i here
      obtain ⟨answer, about, located⟩ := bindAnswered.mp located
      cases answer with
      | none => exact ih located
      | some own =>
        cases located
        cases aboutNode about
        cases found : a.tree.get? site.node with
        | none => rw [found] at here; cases here
        | some n =>
          rw [found, Option.any_some, Bool.and_eq_true, beq_iff_eq, beq_iff_eq] at here
          exact ⟨about, n, rfl, here⟩
    · exact ih located

/- A fix is written for a call that stands where the diagnostic says. -/
theorem synthesizedCovers (forest : a.tree.Forest) (made : a.synthesize? rule d = .ok (some fix)) :
    ∃ site j n replaced, a.matchOperation? rule.matcher site.node = .ok (some site) ∧
      (∃ m, a.tree.get? site.node = some m ∧ m.start = d.start ∧ m.stop = d.start + d.length) ∧
      Fix.Hosts a.tree site.node j ∧ a.tree.get? j = some n ∧ n.start ≤ n.stop ∧
      Fix.Covers (a.tree.text?.getD []) n replaced fix.edits := by
  unfold synthesize? at made
  split at made
  · cases made
  · obtain ⟨stop, place, made⟩ := bindAnswered.mp made
    obtain ⟨answer, located, made⟩ := bindAnswered.mp made
    cases answer with
    | none => cases made
    | some site =>
      have ends : stop = d.start + d.length := by
        unfold Diagnostic.stop? Offset.add? at place
        split at place <;> cases place
        rfl
      obtain ⟨about, m, found, starts, stops⟩ := locateHolds located
      obtain ⟨⟨edits, guard⟩, wrote, rfl⟩ := Option.map_eq_some_iff.mp (Except.ok.inj made)
      obtain ⟨j, n, replaced, hosts, held, order, covers⟩ := Fix.guardCovers forest wrote
      exact ⟨site, j, n, replaced, about, ⟨m, found, starts, stops.trans ends⟩, hosts, held, order, covers⟩

end Analysis

namespace Program
open TextEdit (Carried)
variable {fileName : String} {text : List Char} {rules : List Rule} {findings : List Finding}

theorem findingMade (answer : lint fileName text rules = .ok findings) {f : Finding} {fix : Fix}
    (own : f ∈ findings) (has : f.fix? = some fix) :
    ∃ rule ∈ rules, ((parse fileName text).analysis fileName).synthesize? rule f.diagnostic =
      .ok (some fix) := by
  obtain ⟨found, each, answer⟩ := bindAnswered.mp answer
  cases answer
  rcases List.mem_append.mp (List.mem_mergeSort.mp own) with fault | said
  · obtain ⟨e, _, rfl⟩ := List.mem_map.mp fault
    cases has
  · obtain ⟨d, _, made⟩ := mapAnswered each f said
    split at made
    · rename_i rule known
      obtain ⟨fix', fixed, made⟩ := bindAnswered.mp made
      cases made
      cases has
      exact ⟨rule, List.mem_of_find?_eq_some known, fixed⟩
    · cases made
      cases has

theorem findingCovers (answer : lint fileName text rules = .ok findings) {f : Finding} {fix : Fix}
    (own : f ∈ findings) (has : f.fix? = some fix) :
    ∃ j n replaced, (parse fileName text).tree.get? j = some n ∧ Fix.Covers text n replaced fix.edits := by
  obtain ⟨rule, _, made⟩ := findingMade answer own has
  obtain ⟨_, j, n, replaced, _, _, _, found, _, covers⟩ :=
    Analysis.synthesizedCovers (treeForest fileName text) made
  have same : (parse fileName text).tree.text?.getD [] = text := by rw [treeText]; rfl
  exact ⟨j, n, replaced, found, same ▸ covers⟩

theorem findingSound (answer : lint fileName text rules = .ok findings) :
    ∀ fix ∈ findings.filterMap (·.fix?), Fix.Sound text fix.edits := by
  intro fix member
  obtain ⟨f, own, has⟩ := List.mem_filterMap.mp member
  obtain ⟨_, _, _, _, covers⟩ := findingCovers answer own has
  exact Fix.coversSound covers

/- Each fix of an analysis is made as a whole or left out as a whole, and none is left out exactly if
all are clear of one another. -/
theorem lintApplies (answer : lint fileName text rules = .ok findings)
    (small : byteLength text ≤ Offset.max) :
    let fixes := findings.filterMap (·.fix?)
    ∃ taken r, Fix.applyAll text fixes = .ok r ∧ Fix.Takes (byteLength text) [] fixes taken ∧
      r.applied = taken.length ∧ r.applied + r.skipped = fixes.length ∧
      Carried 0 text ((taken.flatMap (·.edits)).mergeSort TextEdit.before) r.text ∧
      (r.skipped = 0 ↔ fixes.Pairwise fun f g => Fix.Distant f.edits g.edits) := by
  intro fixes
  have sound := findingSound answer
  have inside : ∀ fix ∈ fixes, ∀ e ∈ fix.edits, e.stop ≤ byteLength text :=
    fun fix own e mine => Text.boundaryInside ((sound fix own).fits e mine).2
  obtain ⟨taken, made, r, applied, takes, count, all, _, carried, whole⟩ :=
    Fix.applyAllWhole text fun fix own e mine => Nat.le_trans (inside fix own e mine) small
  rw [whole.mpr fun fix own => sound fix ((Fix.takenPart takes).subset own)] at carried
  refine ⟨taken, r, applied, takes, count, all, carried, fun none => ?_, fun apart => ?_⟩
  · have same : taken = fixes := (Fix.takenPart takes).eq_of_length (by omega)
    exact (Fix.takesAll.mp (same ▸ takes)).2
  · have every : Fix.Takes (byteLength text) [] fixes fixes :=
      Fix.takesAll.mpr ⟨fun f own e mine => ⟨inside f own e mine, nofun⟩, apart⟩
    have same := congrArg List.length (Fix.takesOnce takes every)
    omega

/- Fixes that only insert are all applied. -/
theorem insertsApplied (answer : lint fileName text rules = .ok findings)
    (small : byteLength text ≤ Offset.max)
    (inserts : ∀ fix ∈ findings.filterMap (·.fix?), ∀ e ∈ fix.edits, e.length = 0) :
    ∃ r, Fix.applyAll text (findings.filterMap (·.fix?)) = .ok r ∧ r.skipped = 0 := by
  obtain ⟨_, r, applied, _, _, _, _, none⟩ := lintApplies answer small
  refine ⟨r, applied, none.mpr ?_⟩
  refine List.Pairwise.imp_of_mem (fun {f g} one two _ a own e mine => ?_)
    (List.pairwise_of_forall fun _ _ => trivial)
  exact Fix.insertsClear (inserts g two e mine) (inserts f one a own)

/- Two fixes of a program without faults overlap only if one of them replaces a node that the other's
node stands under, or that stands under the other's node and has a line beginning inside it. -/
theorem fixesDistant (clean : (parse fileName text).errors = []) {i j : NodeId} {n m : Node}
    {replaced also : Bool} {edits more : List TextEdit} :
    let p := parse fileName text
    p.tree.Under p.root i → p.tree.Under p.root j → p.tree.get? i = some n → p.tree.get? j = some m →
    Fix.Covers text n replaced edits → Fix.Covers text m also more →
      Fix.Distant edits more ∨ Fix.Obstructs p.tree text i n replaced j ∨
        Fix.Obstructs p.tree text j m also i := by
  intro p reached reached' found found' covers covers'
  have nested := treeNested clean
  rcases Tree.nestedBeside nested (.self p.root) reached reached' found found' with
    under | above | beside | beside
  · exact Fix.underDistant nested reached under found found' covers covers'
  · exact (Fix.underDistant nested reached' above found' found covers' covers).imp Fix.distantSymm Or.symm
  · exact .inl (Fix.besideDistant covers covers' (Tree.nestedOrder nested reached found)
      (Tree.nestedOrder nested reached' found') beside)
  · exact .inl (Fix.distantSymm (Fix.besideDistant covers' covers (Tree.nestedOrder nested reached' found')
      (Tree.nestedOrder nested reached found) beside))

/- The wrap of the outer call indents a line inside the inner call, which is replaced. -/
example :
    let t := (parse "input.ts" "emit(() => emit(\n1));".toList).tree
    [3, 5].map (fun i => (t.callSite? i).bind fun site =>
      (Fix.guardEdits? t site Rule.emitAfterAwait.guard).map fun (edits, _) =>
        edits.map fun e => (e.start, e.stop)) =
      [some [(11, 19)], some [(0, 0), (17, 17), (21, 21)]] := by decide +kernel

end Program
end CallGuard
