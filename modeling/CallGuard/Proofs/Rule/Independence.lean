import CallGuard.Proofs.Rule.Evaluation
import Mathlib.Data.List.Sort
import Mathlib.Data.String.Basic

/-! Rules do not see one another. What several rules report is one row, ordered by place and rule, from
which the report of each rule can be read off; a rule that breaks down is missing from it and nothing
else, and the order in which rules are listed does not matter. -/
namespace CallGuard

/- Strictly by place, and at one place by rule. -/
def Diagnostic.Precedes (d e : Diagnostic) : Prop :=
  d.start < e.start ∨ d.start = e.start ∧ d.ruleId < e.ruleId

namespace Diagnostic
variable {d e f : Diagnostic}

theorem beforeIff : d.before e = true ↔ d.start < e.start ∨ d.start = e.start ∧ d.ruleId ≤ e.ruleId := by
  simp only [before, Bool.or_eq_true, Bool.and_eq_true, decide_eq_true_eq, beq_iff_eq,
    Bool.not_eq_true', decide_eq_false_iff_not, not_lt]

theorem beforeTrans (one : d.before e = true) (two : e.before f = true) : d.before f = true := by
  rw [beforeIff] at one two ⊢
  rcases one with less | ⟨same, le⟩
  · exact .inl (two.elim less.trans fun h => h.1 ▸ less)
  · exact two.imp (same ▸ ·) fun h => ⟨same.trans h.1, le.trans h.2⟩

theorem beforeTotal (d e : Diagnostic) : (d.before e || e.before d) = true := by
  rw [Bool.or_eq_true, beforeIff, beforeIff]
  rcases Nat.lt_trichotomy d.start e.start with less | same | more
  · exact .inl (.inl less)
  · exact (le_total d.ruleId e.ruleId).imp (.inr ⟨same, ·⟩) (.inr ⟨same.symm, ·⟩)
  · exact .inr (.inl more)

theorem precedesApart (precedes : d.Precedes e) : ¬ (d.start = e.start ∧ d.ruleId = e.ruleId) := by
  rintro ⟨start, rule⟩
  rcases precedes with less | ⟨_, less⟩
  · exact absurd (start ▸ less) (Nat.lt_irrefl _)
  · exact absurd (rule ▸ less) (lt_irrefl _)

theorem precedesAsymm (one : d.Precedes e) (two : e.Precedes d) : False := by
  rcases one with less | ⟨same, less⟩ <;> rcases two with less' | ⟨same', less'⟩
  · exact Nat.lt_asymm less less'
  · exact Nat.lt_irrefl _ (same' ▸ less)
  · exact Nat.lt_irrefl _ (same ▸ less')
  · exact lt_asymm less less'

/- What stands before something else without being at its place under its rule precedes it. -/
theorem beforePrecedes (before : d.before e = true) (apart : ¬ (d.start = e.start ∧ d.ruleId = e.ruleId)) :
    d.Precedes e :=
  (beforeIff.mp before).imp_right fun ⟨same, le⟩ =>
    ⟨same, lt_of_le_of_ne le fun rule => apart ⟨same, rule⟩⟩

end Diagnostic

/- Nothing is reported twice by one rule at one place. -/
def Single (ds : List Diagnostic) : Prop :=
  ds.Pairwise fun d e => ¬ (d.start = e.start ∧ d.ruleId = e.ruleId)

namespace Single
variable {ds es : List Diagnostic}

theorem perm (single : Single ds) (same : ds.Perm es) : Single es :=
  same.pairwise single fun apart both => apart ⟨both.1.symm, both.2.symm⟩

/- Sorting leaves a strict order. -/
theorem sorted (single : Single ds) : (ds.mergeSort Diagnostic.before).Pairwise Diagnostic.Precedes := by
  have order : (ds.mergeSort Diagnostic.before).Pairwise fun d e => d.before e = true :=
    List.pairwise_mergeSort (fun d e f => @Diagnostic.beforeTrans d e f) Diagnostic.beforeTotal ds
  have apart := single.perm (List.mergeSort_perm ds Diagnostic.before).symm
  exact order.imp₂ (fun _ _ => Diagnostic.beforePrecedes) apart

end Single

theorem precedesOnly {ds es : List Diagnostic} (same : ds.Perm es)
    (one : ds.Pairwise Diagnostic.Precedes) (two : es.Pairwise Diagnostic.Precedes) : ds = es :=
  same.eq_of_pairwise (fun _ _ _ _ precedes back => (Diagnostic.precedesAsymm precedes back).elim) one two

namespace Analysis
variable {a : Analysis} {rule : Rule} {rules others : List Rule}

/- Where neighbours differ, none is taken out. -/
theorem mergeApart {ds : List Diagnostic} (ordered : ds.Pairwise Diagnostic.Precedes) :
    mergeNeighbours ds = ds := by
  induction ds with
  | nil => rfl
  | cons d ds ih =>
    obtain ⟨first, rest⟩ := List.pairwise_cons.mp ordered
    rw [mergeNeighbours, ih rest]
    cases ds with
    | nil => rfl
    | cons e es =>
      have apart := Diagnostic.precedesApart (first e List.mem_cons_self)
      simp only [Bool.and_eq_true, beq_iff_eq]
      rw [if_neg apart]

/- What a rule adds to the report. -/
def report (a : Analysis) (rule : Rule) : List Diagnostic := (a.evaluate rule).toOption.getD []

theorem evaluateAllReports (a : Analysis) (rules : List Rule) :
    a.evaluateAll rules = mergeNeighbours ((rules.flatMap a.report).mergeSort Diagnostic.before) := by
  refine congrArg (fun ds : List Diagnostic => mergeNeighbours (ds.mergeSort Diagnostic.before)) ?_
  refine congrArg (rules.flatMap ·) (funext fun rule => ?_)
  rw [report]
  cases a.evaluate rule <;> rfl

/- A rule speaks under its own name, and nowhere twice. -/
structure Speaks (a : Analysis) (rule : Rule) : Prop where
  named : ∀ d ∈ a.report rule, d.ruleId = rule.id
  ascending : ((a.report rule).map (·.start)).Pairwise (· < ·)

section
variable (speaks : ∀ rule, a.Speaks rule)
include speaks

theorem reportPrecedes (rule : Rule) : (a.report rule).Pairwise Diagnostic.Precedes :=
  (List.pairwise_map.mp (speaks rule).ascending).imp .inl

theorem reportsSingle (apart : (rules.map (·.id)).Nodup) : Single (rules.flatMap a.report) := by
  rw [Single, List.pairwise_flatMap]
  refine ⟨fun rule _ => (reportPrecedes speaks rule).imp Diagnostic.precedesApart, ?_⟩
  refine (List.pairwise_map.mp apart).imp fun {one two} differ d member e member' both => differ ?_
  rw [← (speaks one).named d member, ← (speaks two).named e member', both.2]

theorem reportNamed (rule other : Rule) : (a.report other).filter (·.ruleId == rule.id) =
    if other.id = rule.id then a.report other else [] := by
  split
  · rename_i same
    refine List.filter_eq_self.mpr fun d there => beq_iff_eq.mpr ?_
    rw [(speaks other).named d there, same]
  · rename_i differ
    refine List.filter_eq_nil_iff.mpr fun d there same => differ ?_
    rw [← (speaks other).named d there, beq_iff_eq.mp same]

/- The part of the row that speaks under the name of a rule is what this rule reports. -/
theorem reportsNamed (apart : (rules.map (·.id)).Nodup) (member : rule ∈ rules) :
    (rules.flatMap a.report).filter (·.ruleId == rule.id) = a.report rule := by
  induction rules with
  | nil => cases member
  | cons first rules ih =>
    obtain ⟨fresh, apart⟩ := List.nodup_cons.mp apart
    rw [List.flatMap_cons, List.filter_append, reportNamed speaks]
    rcases List.mem_cons.mp member with rfl | member
    · have others : (rules.flatMap a.report).filter (·.ruleId == rule.id) = [] := by
        rw [List.filter_flatMap]
        refine List.flatMap_eq_nil_iff.mpr fun other there => ?_
        rw [reportNamed speaks, if_neg fun same => fresh (List.mem_map.mpr ⟨other, there, same⟩)]
      rw [if_pos rfl, others, List.append_nil]
    · have differ : first.id ≠ rule.id := fun same =>
        fresh (List.mem_map.mpr ⟨rule, member, same.symm⟩)
      rw [if_neg differ, List.nil_append, ih apart member]

theorem evaluateAllSorted (apart : (rules.map (·.id)).Nodup) :
    a.evaluateAll rules = (rules.flatMap a.report).mergeSort Diagnostic.before := by
  rw [evaluateAllReports, mergeApart (reportsSingle speaks apart).sorted]

theorem evaluateAllPrecedes (apart : (rules.map (·.id)).Nodup) :
    (a.evaluateAll rules).Pairwise Diagnostic.Precedes := by
  rw [evaluateAllSorted speaks apart]
  exact (reportsSingle speaks apart).sorted

theorem evaluateAllPerm (apart : (rules.map (·.id)).Nodup) :
    (a.evaluateAll rules).Perm (rules.flatMap a.report) := by
  rw [evaluateAllSorted speaks apart]
  exact List.mergeSort_perm _ _

/- Two rows with the same reports in them are the same. -/
theorem evaluateAllNamed (apart : (rules.map (·.id)).Nodup) (member : rule ∈ rules) :
    (a.evaluateAll rules).filter (·.ruleId == rule.id) = a.report rule := by
  refine precedesOnly ?_ ((evaluateAllPrecedes speaks apart).filter _) (reportPrecedes speaks rule)
  rw [← reportsNamed speaks apart member]
  exact (evaluateAllPerm speaks apart).filter _

theorem evaluateAllOrder (apart : (rules.map (·.id)).Nodup) (same : rules.Perm others) :
    a.evaluateAll others = a.evaluateAll rules := by
  have apart' := (same.map (·.id)).nodup_iff.mp apart
  refine precedesOnly ?_ (evaluateAllPrecedes speaks apart') (evaluateAllPrecedes speaks apart)
  exact (evaluateAllPerm speaks apart').trans
    ((same.symm.flatMap_right _).trans (evaluateAllPerm speaks apart).symm)

end

/- What a rule reports about a program is told by the part of the tree that is walked. -/
theorem reportSaid {visited : List NodeId} {lo hi : Nat} (charted : a.tree.Charted lo [a.root] visited hi)
    (rule : Rule) : a.report rule = [] ∨
      a.report rule = firstAtEachStart [] ((visited.take maxVisits).filterMap (a.said rule)) := by
  rw [report, evaluate, Tree.preorderTake (Tree.walkTour charted.walk)]
  rcases a.saidAll rule (visited.take maxVisits) with ⟨_, _, _, _, whole⟩ | ⟨_, whole⟩
  · rw [whole]
    exact .inl rfl
  · rw [whole]
    refine .inr ?_
    show firstAtEachStart [] (List.filterMap id (List.map _ _)) = _
    rw [List.filterMap_map]
    rfl

end Analysis

namespace Program

theorem programSpeaks (fileName name : String) (text : List Char) (types : TypeOracle) (rule : Rule) :
    let p := parse fileName text
    (⟨p.tree, p.root, name, types⟩ : Analysis).Speaks rule := by
  intro p
  let a : Analysis := ⟨p.tree, p.root, name, types⟩
  have forest : a.tree.Forest := treeForest fileName text
  obtain ⟨visited, hi, charted⟩ := treeCharted fileName text
  rcases Analysis.reportSaid (a := a) charted rule with none | told
  · exact ⟨by simp [a, none], by simp [a, none]⟩
  · have part := Analysis.firstsPart [] ((visited.take maxVisits).filterMap (a.said rule))
    refine ⟨fun d member => ?_, ?_⟩
    · rw [told] at member
      obtain ⟨i, visit, said⟩ := List.mem_filterMap.mp (part.subset member)
      obtain ⟨r, top, reached⟩ := (Tree.walkMem charted.walk).mp (List.mem_of_mem_take visit)
      cases List.mem_singleton.mp top
      obtain ⟨n, site, _, rfl⟩ := (Analysis.saidUnguarded forest reached).mp said
      rfl
    · have walked := (List.take_sublist maxVisits visited).filterMap (a.said rule)
      have ascending := (@Analysis.saidAscending a rule _ _ _ forest charted).sublist
        ((part.trans walked).map (·.start))
      rw [told]
      exact (ascending.and (Analysis.firstsOnce [] _)).imp fun ⟨le, ne⟩ => Nat.lt_of_le_of_ne le ne

theorem rulesIndependent (fileName name : String) (text : List Char) (types : TypeOracle)
    (rules : List Rule) (apart : (rules.map (·.id)).Nodup) :
    let p := parse fileName text
    let a : Analysis := ⟨p.tree, p.root, name, types⟩
    let all := a.evaluateAll rules
    (∀ rule ∈ rules, (∀ found, a.evaluate rule = .ok found → all.filter (·.ruleId == rule.id) = found) ∧
      ∀ e, a.evaluate rule = .error e → all.filter (·.ruleId == rule.id) = []) ∧
    (∀ d ∈ all, ∃ rule ∈ rules, d.ruleId = rule.id) ∧
    all.Pairwise Diagnostic.Precedes ∧
    ∀ others, rules.Perm others → a.evaluateAll others = all := by
  intro p a all
  have speaks (rule : Rule) : a.Speaks rule := programSpeaks fileName name text types rule
  refine ⟨fun rule member => ?_, fun d member => ?_, Analysis.evaluateAllPrecedes speaks apart,
    fun others same => Analysis.evaluateAllOrder speaks apart same⟩
  · have named := Analysis.evaluateAllNamed speaks apart member
    refine ⟨fun found answer => named.trans ?_, fun e fails => named.trans ?_⟩
    · rw [Analysis.report, answer]
      rfl
    · rw [Analysis.report, fails]
      rfl
  · obtain ⟨rule, there, said⟩ := List.mem_flatMap.mp
      ((Analysis.evaluateAllPerm speaks apart).mem_iff.mp member)
    exact ⟨rule, there, (speaks rule).named d said⟩

/- The types of receivers cannot be told, so the rule about controllers reports nothing. -/
theorem builtinIndependent :
    let p := parse "f" "async function f(c: Sink) { await x(); c.add(1); this.emit(2); emit(3); }".toList
    let a : Analysis := ⟨p.tree, p.root, "f", .failing⟩
    let all := a.evaluateAll Rule.builtin
    (Rule.builtin.map (·.id)).Nodup ∧
      (all.filter (·.ruleId == "emit-after-await")).map (·.start) = [49, 63] ∧
      all.filter (·.ruleId == "add-to-closed-controller") = [] ∧
      all.Pairwise Diagnostic.Precedes ∧ a.evaluateAll Rule.builtin.reverse = all := by
  intro p a all
  have apart : (Rule.builtin.map (·.id)).Nodup := by decide
  obtain ⟨each, _, ordered, order⟩ := rulesIndependent "f" "f" _ .failing Rule.builtin apart
  have emits : (a.evaluate Rule.emitAfterAwait).toOption.map (List.map (·.start)) = some [49, 63] := by
    decide +kernel
  have adds : a.evaluate Rule.addToClosedController = .error .typesFailed := by decide +kernel
  refine ⟨apart, ?_, (each Rule.addToClosedController (by simp [Rule.builtin])).2 _ adds, ordered,
    order _ (List.reverse_perm _).symm⟩
  cases found : a.evaluate Rule.emitAfterAwait with
  | error e => rw [found] at emits; cases emits
  | ok ds =>
    have own := (each Rule.emitAfterAwait (by simp [Rule.builtin])).1 ds found
    have starts : some (ds.map (·.start)) = some [49, 63] := by
      rw [← emits, found]
      rfl
    exact (congrArg (List.map (·.start)) own).trans (Option.some.inj starts)

end Program
end CallGuard
