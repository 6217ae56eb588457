import CallGuard.Proofs.Fix.Covering
import CallGuard.Proofs.Parser.CallsApart

/-! The call that a fix guards. A rule is evaluated on the nodes under the root and reports a place,
and a fix looks among all nodes that were ever added for a call at that place. As no two calls stand
at one place, it finds the call that was reported, and it changes nothing outside that call, the
statement or the arrow body that it is. -/
namespace CallGuard

namespace Analysis
variable {a : Analysis} {rule : Rule} {d : Diagnostic} {site : CallSite} {i j : NodeId}

/- A call that the rule is about stands exactly where the diagnostic says. -/
structure Reported (a : Analysis) (rule : Rule) (d : Diagnostic) (i : NodeId) : Prop where
  place : ∃ n, a.tree.get? i = some n ∧ n.start = d.start ∧ n.stop = d.start + d.length
  about : ∃ site, a.matchOperation? rule.matcher i = .ok (some site)

/-! ### Evaluation -/

theorem evaluatedFrom {found : List Diagnostic} (answer : a.evaluate rule = .ok found)
    (member : d ∈ found) :
    ∃ i ∈ a.tree.preorder (fun _ => true) a.root, a.diagnose? rule i = .ok (some d) := by
  obtain ⟨said, each, answer⟩ := bindAnswered.mp answer
  cases answer
  obtain ⟨told, own, same⟩ := List.mem_filterMap.mp ((firstsPart _ _).subset member)
  cases same
  exact mapAnswered each _ own

theorem diagnosed (told : a.diagnose? rule i = .ok (some d)) :
    ∃ site n, a.matchOperation? rule.matcher i = .ok (some site) ∧ a.tree.get? i = some n ∧
      d = a.diagnose rule site n := by
  obtain ⟨answer, about, told⟩ := bindAnswered.mp told
  cases answer with
  | none => cases told
  | some site =>
    dsimp only at told
    split at told
    · cases told
    · obtain ⟨n, found, rfl⟩ := Option.map_eq_some_iff.mp (Except.ok.inj told)
      exact ⟨site, n, about, found, rfl⟩

section
variable (forest : a.tree.Forest)
include forest

/- A diagnosis names the ends of its node, as a call is not empty. -/
theorem diagnosedReported (wide : ∀ c ∈ a.tree.callPlaces, c.1 < c.2)
    (told : a.diagnose? rule i = .ok (some d)) : a.Reported rule d i := by
  obtain ⟨site, n, about, found, rfl⟩ := diagnosed told
  have order := wide _ (Tree.callListed found (siteCall forest about found))
  refine ⟨⟨n, found, rfl, ?_⟩, site, about⟩
  show n.stop = n.start + (n.stop - n.start)
  rw [Nat.add_sub_of_le (Nat.le_of_lt order)]

/-! ### The search for the call -/

/- Whatever else stands at the place of a call is no call. -/
theorem reportedOther (apart : a.tree.callPlaces.Nodup) (reported : a.Reported rule d i) {m : Node}
    (found : a.tree.get? j = some m) (start : m.start = d.start) (stop : m.stop = d.start + d.length)
    (other : j ≠ i) : a.tree.callSite? j = none := by
  obtain ⟨⟨n, own, start', stop'⟩, site, about⟩ := reported
  cases named : a.tree.callSite? j with
  | none => rfl
  | some s =>
    have call := namedKind forest named found
    have call' := siteCall forest about own
    exact absurd (Tree.callAlone apart found own call call' (start.trans start'.symm)
      (stop.trans stop'.symm)) other

theorem reportedOnce (apart : a.tree.callPlaces.Nodup) (one : a.Reported rule d i)
    (two : a.Reported rule d j) : j = i := by
  obtain ⟨⟨m, found, start, stop⟩, site, about⟩ := two
  by_contra other
  have none := reportedOther forest apart one found start stop other
  cases none.symm.trans (matchSite about)

/- The search passes over all other nodes at the place. -/
theorem reportedLocated (apart : a.tree.callPlaces.Nodup) (reported : a.Reported rule d i)
    (about : a.matchOperation? rule.matcher i = .ok (some site)) {candidates : List NodeId}
    (member : i ∈ candidates) :
    a.locate? rule d.start (d.start + d.length) candidates = .ok (some site) := by
  induction candidates with
  | nil => cases member
  | cons j rest ih =>
    rw [locate?]
    by_cases same : j = i
    · subst same
      obtain ⟨⟨n, found, start, stop⟩, _⟩ := reported
      rw [if_pos (by simp [found, start, stop]), about]
      rfl
    · have later := ih (List.mem_of_ne_of_mem (Ne.symm same) member)
      split
      · rename_i here
        obtain ⟨m, found, ends⟩ := (Option.any_eq_true _ _).mp here
        obtain ⟨start, stop⟩ := Bool.and_eq_true_iff.mp ends
        have none := reportedOther forest apart reported found (beq_iff_eq.mp start)
          (beq_iff_eq.mp stop) same
        rw [matchOperation?, none]
        exact later
      · exact later

end

/- The fix for the call that was located. -/
theorem synthesizedAt (named : d.ruleId = rule.id)
    (located : a.locate? rule d.start (d.start + d.length) (List.range a.tree.size) = .ok (some site)) :
    a.synthesize? rule d = (Breakdown.unlessTooLarge d.stop?).map fun _ =>
      (Fix.guardEdits? a.tree site rule.guard).map fun (edits, guard) =>
        ⟨rule.id, Fix.describe rule site guard, edits⟩ := by
  have same : (d.ruleId != rule.id) = false := by rw [named, bne_self_eq_false]
  rw [synthesize?, same, Diagnostic.stop?, Offset.add?]
  by_cases small : d.start + d.length ≤ Offset.max
  · rw [if_pos small]
    show (a.locate? rule d.start (d.start + d.length) (List.range a.tree.size) >>= _) = _
    rw [located]
    rfl
  · rw [if_neg small]
    rfl

end Analysis

namespace Program

end Program
end CallGuard
