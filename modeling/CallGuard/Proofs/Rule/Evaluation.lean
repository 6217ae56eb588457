import CallGuard.Analysis.Evaluate
import CallGuard.Proofs.Parser.Placed
import CallGuard.Rule.Builtin

/-! What one rule reports about one file: every place where a call that the rule is about has no
guard, once each and in the order of the text; of several such calls at one place, the outermost. -/
namespace CallGuard

namespace Analysis
variable {a : Analysis} {rule : Rule} {i : NodeId} {n : Node} {site : CallSite}

/- A call under the root that the rule is about and that nothing protects. -/
structure Unguarded (a : Analysis) (rule : Rule) (i : NodeId) (n : Node) (site : CallSite) : Prop where
  reached : a.tree.Under a.root i
  found : a.tree.get? i = some n
  call : n.kind.isCall = true
  about : a.matchOperation? rule.matcher i = .ok (some site)
  bare : a.tree.guard? a.root site rule.guard = none

/-! ### One node -/

theorem matchSite {m : OperationMatcher} (about : a.matchOperation? m i = .ok (some site)) :
    a.tree.callSite? i = some site := by
  unfold matchOperation? at about
  split at about
  · cases about
  · rename_i named
    split at about
    · cases about
    · obtain ⟨accepted, _, about⟩ := bindAnswered.mp about
      split at about
      · cases about
      · split at about
        · cases about
          exact named
        · cases about

theorem namedKind (forest : a.tree.Forest) (named : a.tree.callSite? i = some site)
    (found : a.tree.get? i = some n) : n.kind.isCall = true := by
  obtain ⟨call, held, _⟩ := Option.bind_eq_some_iff.mp named
  unfold Tree.call? at held
  split at held
  · rename_i c payload
    obtain ⟨k, kind, form⟩ := Tree.heldKind forest payload
    rw [Tree.kind?, found] at kind
    cases kind
    exact Tree.callKind form
  · cases held

theorem siteCall (forest : a.tree.Forest) (about : a.matchOperation? rule.matcher i = .ok (some site))
    (found : a.tree.get? i = some n) : n.kind.isCall = true :=
  namedKind forest (matchSite about) found

theorem diagnoseFails {e : Breakdown} :
    a.diagnose? rule i = .error e ↔ a.matchOperation? rule.matcher i = .error e := by
  rw [diagnose?]
  cases a.matchOperation? rule.matcher i with
  | error e' =>
    show (Except.error e' : Except Breakdown (Option Diagnostic)) = _ ↔ _
    simp
  | ok answer =>
    cases answer with
    | none => exact ⟨nofun, nofun⟩
    | some site =>
      show (if _ then _ else _ : Except Breakdown _) = _ ↔ _
      split <;> exact ⟨nofun, nofun⟩

/- The diagnosis of a node, where the types that it depends on are there. -/
def said (a : Analysis) (rule : Rule) (i : NodeId) : Option Diagnostic :=
  match a.diagnose? rule i with
  | .ok d => d
  | .error _ => none

theorem saidAbout (about : a.matchOperation? rule.matcher i = .ok (some site)) : a.said rule i =
    if (a.tree.guard? a.root site rule.guard).isSome then none
    else (a.tree.get? i).map (a.diagnose rule site) := by
  rw [said, diagnose?, about]
  cases bare : a.tree.guard? a.root site rule.guard <;> simp [bind, Except.bind, bare, pure, Except.pure]

theorem saidNothing (other : ∀ site, a.matchOperation? rule.matcher i ≠ .ok (some site)) :
    a.said rule i = none := by
  rw [said, diagnose?]
  cases about : a.matchOperation? rule.matcher i with
  | error e => rfl
  | ok answer =>
    cases answer with
    | none => rfl
    | some site => exact absurd about (other site)

theorem saidUnguarded (forest : a.tree.Forest) (reached : a.tree.Under a.root i) {d : Diagnostic} :
    a.said rule i = some d ↔ ∃ n site, a.Unguarded rule i n site ∧ d = a.diagnose rule site n := by
  constructor
  · intro told
    by_cases about : ∃ site, a.matchOperation? rule.matcher i = .ok (some site)
    · obtain ⟨site, about⟩ := about
      rw [saidAbout about] at told
      split at told
      · cases told
      · rename_i bare
        obtain ⟨n, found, rfl⟩ := Option.map_eq_some_iff.mp told
        exact ⟨n, site, ⟨reached, found, siteCall forest about found, about,
          Option.not_isSome_iff_eq_none.mp bare⟩, rfl⟩
    · rw [saidNothing fun site own => about ⟨site, own⟩] at told
      cases told
  · rintro ⟨n, site, ⟨_, found, _, about, bare⟩, rfl⟩
    simp [saidAbout about, bare, found]

/-! ### All nodes -/

/- Either the types of some node cannot be told, or every node has its say. -/
theorem saidAll (a : Analysis) (rule : Rule) (visited : List NodeId) :
    (∃ i ∈ visited, ∃ e, a.diagnose? rule i = .error e ∧ visited.mapM (a.diagnose? rule) = .error e) ∨
      (∀ i ∈ visited, a.diagnose? rule i = .ok (a.said rule i)) ∧
        visited.mapM (a.diagnose? rule) = .ok (visited.map (a.said rule)) := by
  induction visited with
  | nil => exact .inr ⟨nofun, rfl⟩
  | cons i visited ih =>
    rw [List.mapM_cons]
    cases one : a.diagnose? rule i with
    | error e => exact .inl ⟨i, List.mem_cons_self, e, one, rfl⟩
    | ok r =>
      have told : a.said rule i = r := by rw [said, one]
      rcases ih with ⟨j, member, e, fails, whole⟩ | ⟨each, whole⟩
      · exact .inl ⟨j, List.mem_cons_of_mem _ member, e, fails, by rw [whole]; rfl⟩
      · refine .inr ⟨List.forall_mem_cons.mpr ⟨one.trans (congrArg _ told.symm), each⟩, ?_⟩
        rw [whole, List.map_cons, told]
        rfl

/-! ### The first at each place -/

theorem firstsPart (seen : List Nat) (ds : List Diagnostic) :
    (firstAtEachStart seen ds).Sublist ds := by
  induction ds generalizing seen with
  | nil => exact .slnil
  | cons d ds ih =>
    rw [firstAtEachStart]
    split
    · exact .cons _ (ih _)
    · exact .cons_cons _ (ih _)

theorem firstsMem (seen : List Nat) (ds : List Diagnostic) (s : Nat) :
    s ∈ (firstAtEachStart seen ds).map (·.start) ↔ s ∉ seen ∧ s ∈ ds.map (·.start) := by
  induction ds generalizing seen with
  | nil => simp [firstAtEachStart]
  | cons d ds ih =>
    rw [firstAtEachStart, List.map_cons, List.mem_cons]
    by_cases old : d.start ∈ seen
    · rw [if_pos (List.contains_iff_mem.mpr old), ih]
      exact and_congr_right fun new => ⟨.inr, fun h => h.resolve_left fun same => new (same ▸ old)⟩
    · rw [if_neg (mt List.contains_iff_mem.mp old), List.map_cons, List.mem_cons, ih, List.mem_cons]
      by_cases same : s = d.start
      · simp [same, old]
      · simp [same]

theorem firstsOnce (seen : List Nat) (ds : List Diagnostic) :
    ((firstAtEachStart seen ds).map (·.start)).Nodup := by
  induction ds generalizing seen with
  | nil => exact List.nodup_nil
  | cons d ds ih =>
    rw [firstAtEachStart]
    split
    · exact ih _
    · refine List.nodup_cons.mpr ⟨fun again => ?_, ih _⟩
      exact ((firstsMem _ _ _).mp again).1 List.mem_cons_self

/- What is reported comes from the first node that says something about the place. -/
theorem firstsOrigin {visited : List NodeId} {seen : List Nat} {d : Diagnostic}
    (member : d ∈ firstAtEachStart seen (visited.filterMap (a.said rule))) :
    ∃ before i after, visited = before ++ i :: after ∧ a.said rule i = some d ∧
      ∀ j ∈ before, ∀ e, a.said rule j = some e → e.start ≠ d.start := by
  induction visited generalizing seen with
  | nil => cases member
  | cons i visited ih =>
    cases told : a.said rule i with
    | none =>
      rw [List.filterMap_cons_none told] at member
      obtain ⟨before, j, after, rfl, own, first⟩ := ih member
      refine ⟨i :: before, j, after, rfl, own, fun k earlier e told' => ?_⟩
      rcases List.mem_cons.mp earlier with rfl | earlier
      · rw [told] at told'
        cases told'
      · exact first k earlier e told'
    | some c =>
      rw [List.filterMap_cons_some told] at member
      by_cases here : d = c
      · exact ⟨[], i, visited, rfl, here ▸ told, nofun⟩
      · obtain ⟨seen', later, old⟩ : ∃ seen',
            d ∈ firstAtEachStart seen' (visited.filterMap (a.said rule)) ∧ c.start ∈ seen' := by
          rw [firstAtEachStart] at member
          split at member
          · rename_i old
            exact ⟨seen, member, List.contains_iff_mem.mp old⟩
          · exact ⟨_, (List.mem_cons.mp member).resolve_left here, List.mem_cons_self⟩
        obtain ⟨before, j, after, rfl, own, first⟩ := ih later
        have apart := ((firstsMem _ _ _).mp (List.mem_map_of_mem later)).1
        refine ⟨i :: before, j, after, rfl, own, fun k earlier e told' => ?_⟩
        rcases List.mem_cons.mp earlier with rfl | earlier
        · cases told.symm.trans told'
          exact fun same => apart (same ▸ old)
        · exact first k earlier e told'

theorem saidAscending {visited : List NodeId} {lo hi : Nat} (forest : a.tree.Forest)
    (charted : a.tree.Charted lo [a.root] visited hi) :
    ((visited.filterMap (a.said rule)).map (·.start)).Pairwise (· ≤ ·) := by
  have start {i : NodeId} (member : i ∈ visited) {d : Diagnostic} (told : a.said rule i = some d) :
      ∃ n, a.tree.get? i = some n ∧ d.start = n.start := by
    obtain ⟨r, top, reached⟩ := (Tree.walkMem charted.walk).mp member
    cases List.mem_singleton.mp top
    obtain ⟨n, site, unguarded, rfl⟩ := (saidUnguarded forest reached).mp told
    exact ⟨n, unguarded.found, rfl⟩
  rw [List.pairwise_map, List.pairwise_filterMap]
  refine charted.order.imp_of_mem fun {i j} one two precedes d told e told' => ?_
  obtain ⟨n, found, same⟩ := start one told
  obtain ⟨m, found', same'⟩ := start two told'
  exact same ▸ same' ▸ (precedes n m found found').1

theorem saidPlaces {visited : List NodeId} {lo hi : Nat} (forest : a.tree.Forest)
    (charted : a.tree.Charted lo [a.root] visited hi) (s : Nat) :
    s ∈ (firstAtEachStart [] (visited.filterMap (a.said rule))).map (·.start) ↔
      ∃ i n site, a.Unguarded rule i n site ∧ n.start = s := by
  rw [firstsMem, List.mem_map]
  constructor
  · rintro ⟨-, d, member, rfl⟩
    obtain ⟨i, visit, told⟩ := List.mem_filterMap.mp member
    obtain ⟨r, top, reached⟩ := (Tree.walkMem charted.walk).mp visit
    cases List.mem_singleton.mp top
    obtain ⟨n, site, unguarded, rfl⟩ := (saidUnguarded forest reached).mp told
    exact ⟨i, n, site, unguarded, rfl⟩
  · rintro ⟨i, n, site, unguarded, rfl⟩
    have visit := (Tree.walkMem charted.walk).mpr
      ⟨a.root, List.mem_singleton_self _, unguarded.reached⟩
    have told := (saidUnguarded forest unguarded.reached).mpr ⟨n, site, unguarded, rfl⟩
    exact ⟨List.not_mem_nil, _, List.mem_filterMap.mpr ⟨i, visit, told⟩, rfl⟩

/- The outermost call of those that are to be reported at one place is visited first. -/
theorem saidOutermost {visited : List NodeId} {lo hi : Nat} (forest : a.tree.Forest)
    (charted : a.tree.Charted lo [a.root] visited hi) {d : Diagnostic}
    (member : d ∈ firstAtEachStart [] (visited.filterMap (a.said rule))) :
    ∃ i n site, a.Unguarded rule i n site ∧ d = a.diagnose rule site n ∧
      ∀ j m other, a.Unguarded rule j m other → m.start = n.start → a.tree.Under i j := by
  obtain ⟨before, i, after, rfl, own, first⟩ := firstsOrigin member
  obtain ⟨r, top, reached⟩ := (Tree.walkMem charted.walk).mp
    (List.mem_append_right before List.mem_cons_self)
  cases List.mem_singleton.mp top
  obtain ⟨n, site, unguarded, rfl⟩ := (saidUnguarded forest reached).mp own
  refine ⟨i, n, site, unguarded, rfl, fun j m other also same => ?_⟩
  have visit : j ∈ before ++ i :: after :=
    (Tree.walkMem charted.walk).mpr ⟨a.root, List.mem_singleton_self _, also.reached⟩
  have told := (saidUnguarded forest also.reached).mpr ⟨m, other, also, rfl⟩
  rcases List.mem_append.mp visit with earlier | later
  · exact absurd same (first j earlier _ told)
  · rcases List.mem_cons.mp later with rfl | later
    · exact .self _
    · have order := (List.pairwise_append.mp charted.order).2.1
      exact ((List.pairwise_cons.mp order).1 j later n m unguarded.found also.found).2
        unguarded.call same

end Analysis

namespace Program

/- Evaluation fails only where the types of a call cannot be told. -/
theorem evaluationExact (fileName : String) (text : List Char) (types : TypeOracle) (rule : Rule) :
    let p := parse fileName text
    let a : Analysis := ⟨p.tree, p.root, fileName, types⟩
    {i | p.tree.Under p.root i}.ncard ≤ maxVisits →
      ((∃ e, a.evaluate rule = .error e) ↔
        ∃ i e, p.tree.Under p.root i ∧ a.matchOperation? rule.matcher i = .error e) ∧
      ∀ found, a.evaluate rule = .ok found →
        (found.map (·.start)).Pairwise (· < ·) ∧
        (∀ s, s ∈ found.map (·.start) ↔ ∃ i n site, a.Unguarded rule i n site ∧ n.start = s) ∧
        ∀ d ∈ found, ∃ i n site, a.Unguarded rule i n site ∧ d = a.diagnose rule site n ∧
          d.length = n.stop - n.start ∧
          ∀ j m other, a.Unguarded rule j m other → m.start = n.start → p.tree.Under i j := by
  intro p a few
  have forest : a.tree.Forest := treeForest fileName text
  obtain ⟨visited, hi, charted⟩ := treeCharted fileName text
  have reached (i : NodeId) : i ∈ visited ↔ p.tree.Under p.root i :=
    (Tree.walkMem charted.walk).trans
      ⟨fun ⟨_, top, under⟩ => List.mem_singleton.mp top ▸ under,
        fun under => ⟨p.root, List.mem_singleton_self _, under⟩⟩
  have walk : a.tree.preorder (fun _ => true) a.root = visited :=
    Tree.preorderWalk charted.walk
      ((Tree.walkLength (treeChildren fileName text) charted.walk).trans_le few)
  rw [Analysis.evaluate, walk]
  rcases a.saidAll rule visited with ⟨i, member, e, fails, whole⟩ | ⟨each, whole⟩
  · rw [whole]
    exact ⟨⟨fun _ => ⟨i, e, (reached i).mp member, Analysis.diagnoseFails.mp fails⟩,
      fun _ => ⟨e, rfl⟩⟩, nofun⟩
  · rw [whole]
    refine ⟨⟨nofun, fun ⟨i, e, under, fails⟩ => ?_⟩, fun found answer => ?_⟩
    · have told := each i ((reached i).mpr under)
      rw [Analysis.diagnoseFails.mpr fails] at told
      cases told
    · obtain rfl : Analysis.firstAtEachStart [] (visited.filterMap (a.said rule)) = found := by
        rw [← Except.ok.inj answer, List.filterMap_map]
        rfl
      refine ⟨?_, Analysis.saidPlaces forest charted, fun d member => ?_⟩
      · have ascending := (@Analysis.saidAscending a rule _ _ _ forest charted).sublist
          ((Analysis.firstsPart [] _).map (·.start))
        exact (ascending.and (Analysis.firstsOnce [] _)).imp fun ⟨le, ne⟩ => Nat.lt_of_le_of_ne le ne
      · obtain ⟨i, n, site, unguarded, rfl, outermost⟩ :=
          Analysis.saidOutermost forest charted member
        exact ⟨i, n, site, unguarded, rfl, rfl, outermost⟩

/- Both calls of the chain begin at one place, and the outer one is reported. The last call is never
closed. -/
theorem chainEvaluated :
    let text := "a.add(1).add(2); b.add(3".toList
    let p := parse "f" text
    let rule := { Rule.addToClosedController with matcher := ⟨["add"], .any, .always⟩ }
    let a : Analysis := ⟨p.tree, p.root, "f", TypeOracle.declared p.tree⟩
    {i | p.tree.Under p.root i}.ncard ≤ maxVisits ∧
      (a.evaluate rule).map (List.map fun d => (d.start, d.length)) = .ok [(0, 15), (17, 7)] ∧
      ∀ found, a.evaluate rule = .ok found →
        (found.map (·.start)).Pairwise (· < ·) ∧
          ∀ s, s ∈ found.map (·.start) ↔ ∃ i n site, a.Unguarded rule i n site ∧ n.start = s := by
  intro text p rule a
  have small : p.root + 1 ≤ maxVisits := by decide +kernel
  have few : {i | p.tree.Under p.root i}.ncard ≤ maxVisits :=
    (Tree.underFew (treeChildren "f" text) p.root).trans small
  have whole := (evaluationExact "f" text (TypeOracle.declared p.tree) rule few).2
  refine ⟨few, by decide +kernel, fun found answer => ?_⟩
  obtain ⟨ascending, exactly, _⟩ := whole found answer
  exact ⟨ascending, exactly⟩

end Program
end CallGuard
