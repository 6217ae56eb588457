import CallGuard.Config
import CallGuard.Proofs.Json.Accepted
import Mathlib.Data.List.Nodup

/-! Which rules are active. A configuration declares the built-in rules and its own, each under an id of its
own, and settles some of them; nothing else can be settled. The order of the settings is of no account,
since there is at most one for each id. -/
namespace CallGuard

/- What is looked up is what is there. -/
theorem RuleSettings.foundEntry {settings : RuleSettings} {id : String} {s : RuleSetting} :
    settings.find? id = some s ↔ (id, s) ∈ settings.entries := by
  rw [find?, List.lookup_eq_some_iff]
  constructor
  · rintro ⟨front, back, split, _⟩
    exact split ▸ List.mem_append_right _ List.mem_cons_self
  · intro member
    obtain ⟨front, back, split⟩ := List.append_of_mem member
    refine ⟨front, back, split, fun entry before => bne_iff_ne.mpr fun same => ?_⟩
    have keyed := settings.keyed
    rw [split, List.map_append, List.nodup_append] at keyed
    exact keyed.2.2 _ (List.mem_map_of_mem before) id (by simp) same.symm

namespace Config
variable {c : Config} {rules : List Rule}

/- All rules that a configuration knows of. -/
def declared (c : Config) : List Rule := Rule.builtin ++ c.extraRules

/- None of the rules behind others takes the id of a rule that stands before it. -/
def Fresh (rules extra : List Rule) : Prop :=
  ∀ i r, extra[i]? = some r → ∀ q ∈ rules ++ extra.take i, q.id ≠ r.id

/- Every setting is for a rule. -/
def Known (c : Config) : Prop := ∀ entry ∈ c.settings.entries, ∃ r ∈ c.declared, r.id = entry.1

def isOff (c : Config) (r : Rule) : Bool := decide ((r.id, RuleSetting.off) ∈ c.settings.entries)

/- A rule under the category that is set for it, all else as it was declared. -/
def asSet (c : Config) (r : Rule) : Rule :=
  { r with category :=
      if (r.id, RuleSetting.warning) ∈ c.settings.entries then .warning
      else if (r.id, RuleSetting.error) ∈ c.settings.entries then .error
      else r.category }

/- The declared rules in their order, without those that are off. -/
def catalogue (c : Config) : List Rule := (c.declared.filter (!c.isOff ·)).map c.asSet

/-! ### Declaring -/

theorem freshCons {r : Rule} {extra : List Rule} :
    Fresh rules (r :: extra) ↔ (∀ q ∈ rules, q.id ≠ r.id) ∧ Fresh (rules ++ [r]) extra := by
  have shift (i : Nat) : rules ++ (r :: extra).take (i + 1) = rules ++ [r] ++ extra.take i := by
    rw [List.take_succ_cons, List.append_assoc, List.singleton_append]
  constructor
  · refine fun fresh => ⟨fun q member => fresh 0 r rfl q (List.mem_append_left _ member), fun i s held => ?_⟩
    exact shift i ▸ fresh (i + 1) s held
  · rintro ⟨new, fresh⟩ i s held
    cases i with
    | zero =>
      cases held
      simpa using new
    | succ i => exact shift i ▸ fresh i s held

/- Rules are added as long as each has an id that is new. -/
theorem declareExact (rules extra all : List Rule) :
    declare rules extra = .ok all ↔ Fresh rules extra ∧ all = rules ++ extra := by
  induction extra generalizing rules with
  | nil => simp [declare, Fresh, eq_comm]
  | cons r extra ih =>
    have taken : rules.any (·.id == r.id) = true ↔ ¬ ∀ q ∈ rules, q.id ≠ r.id := by simp
    rw [declare, freshCons]
    by_cases new : ∀ q ∈ rules, q.id ≠ r.id
    · rw [if_neg (fun any => taken.mp any new), ih, List.append_assoc, List.singleton_append]
      exact and_congr_left fun _ => ⟨fun fresh => ⟨new, fresh⟩, And.right⟩
    · rw [if_pos (taken.mpr new)]
      exact ⟨fun gives => (nomatch gives), fun ⟨⟨fresh, _⟩, _⟩ => absurd fresh new⟩

theorem freshNodup {extra : List Rule} (nodup : (rules.map (·.id)).Nodup) (fresh : Fresh rules extra) :
    ((rules ++ extra).map (·.id)).Nodup := by
  induction extra generalizing rules with
  | nil => rwa [List.append_nil]
  | cons r extra ih =>
    obtain ⟨new, fresh⟩ := freshCons.mp fresh
    rw [← List.singleton_append, ← List.append_assoc]
    refine ih ?_ fresh
    rw [List.map_append, List.nodup_append]
    refine ⟨nodup, List.nodup_singleton _, fun id own id' only => ?_⟩
    obtain ⟨q, member, rfl⟩ := List.mem_map.mp own
    rw [List.mem_singleton.mp only]
    exact new q member

/-! ### Settling -/

/- A rule under one setting, if that is for it. -/
def settledBy (id : String) (s : RuleSetting) (r : Rule) : Rule := if r.id = id then s.on r else r

/- A rule under the setting that is for it among several. -/
def settledAmong (entries : List (String × RuleSetting)) (r : Rule) : Rule :=
  match entries.lookup r.id with
  | some s => s.on r
  | none => r

theorem settledById (id : String) (s : RuleSetting) (r : Rule) : (settledBy id s r).id = r.id := by
  unfold settledBy
  split
  · exact RuleSetting.onId s r
  · rfl

/- Where ids are distinct, the first rule of an id is the only one, so all others stay as they are. -/
theorem settleExact {id : String} {s : RuleSetting} {settled : List Rule} (nodup : (rules.map (·.id)).Nodup) :
    settle? id s rules = some settled ↔ (∃ r ∈ rules, r.id = id) ∧ settled = rules.map (settledBy id s) := by
  induction rules generalizing settled with
  | nil => simp [settle?]
  | cons r rs ih =>
    obtain ⟨alone, nodup⟩ := List.nodup_cons.mp nodup
    rw [settle?, List.map_cons, settledBy]
    by_cases same : r.id = id
    · have others : rs.map (settledBy id s) = rs := by
        refine (List.map_congr_left fun q member => if_neg fun equal => alone ?_).trans (List.map_id' rs)
        exact List.mem_map.mpr ⟨q, member, equal.trans same.symm⟩
      rw [if_pos same, if_pos same, others, Option.some.injEq, eq_comm]
      exact ⟨fun equal => ⟨⟨r, List.mem_cons_self, same⟩, equal⟩, And.right⟩
    · rw [if_neg same, if_neg same, Option.map_eq_some_iff]
      constructor
      · rintro ⟨rest, found, rfl⟩
        obtain ⟨⟨q, member, named⟩, rfl⟩ := (ih nodup).mp found
        exact ⟨⟨q, List.mem_cons_of_mem r member, named⟩, rfl⟩
      · rintro ⟨⟨q, member, named⟩, rfl⟩
        have behind : q ∈ rs := (List.mem_cons.mp member).resolve_left fun own => same (own ▸ named)
        exact ⟨_, (ih nodup).mpr ⟨⟨q, behind, named⟩, rfl⟩, rfl⟩

/- A setting that was put first is not touched by the ones behind it, which are for other rules. -/
theorem settledCons {id : String} {s : RuleSetting} {entries : List (String × RuleSetting)}
    (other : id ∉ entries.map Prod.fst) (r : Rule) :
    settledAmong entries (settledBy id s r) = settledAmong ((id, s) :: entries) r := by
  unfold settledAmong settledBy
  by_cases same : r.id = id
  · have silent : entries.lookup r.id = none := by
      refine List.lookup_eq_none_iff.mpr fun entry member => bne_iff_ne.mpr fun equal => ?_
      exact other (same ▸ equal ▸ List.mem_map_of_mem member)
    rw [if_pos same, RuleSetting.onId, silent, List.lookup_cons, beq_iff_eq.mpr same]
  · rw [if_neg same, List.lookup_cons, beq_eq_false_iff_ne.mpr same]

/- The settings are put on the rules as long as each is for one of them; in the end every rule is under the one that is
for it. -/
theorem settleAllExact {entries : List (String × RuleSetting)} {settled : List Rule}
    (keyed : (entries.map Prod.fst).Nodup) (nodup : (rules.map (·.id)).Nodup) :
    settleAll rules entries = .ok settled ↔
      (∀ entry ∈ entries, ∃ r ∈ rules, r.id = entry.1) ∧ settled = rules.map (settledAmong entries) := by
  induction entries generalizing rules with
  | nil =>
    have same : rules.map (settledAmong []) = rules := List.map_id' rules
    simp [settleAll, same, eq_comm]
  | cons entry entries ih =>
    obtain ⟨id, s⟩ := entry
    obtain ⟨other, keyed⟩ := List.nodup_cons.mp keyed
    rw [settleAll, List.forall_mem_cons]
    cases first : settle? id s rules with
    | none =>
      refine ⟨nofun, fun ⟨⟨known, _⟩, _⟩ => ?_⟩
      cases first.symm.trans ((settleExact nodup).mpr ⟨known, rfl⟩)
    | some next =>
      obtain ⟨known, rfl⟩ := (settleExact nodup).mp first
      have ids : (rules.map (settledBy id s)).map (·.id) = rules.map (·.id) := by
        rw [List.map_map]
        exact List.map_congr_left fun r _ => settledById id s r
      have kept (name : String) : (∃ r ∈ rules.map (settledBy id s), r.id = name) ↔ ∃ r ∈ rules, r.id = name := by
        simp [settledById]
      have whole : (rules.map (settledBy id s)).map (settledAmong entries) =
          rules.map (settledAmong ((id, s) :: entries)) := by
        rw [List.map_map]
        exact List.map_congr_left fun r _ => settledCons other r
      simp only [ih keyed (ids.symm ▸ nodup), kept, whole]
      exact and_congr_left fun _ => ⟨fun rest => ⟨known, rest⟩, And.right⟩

theorem settledAsSet (c : Config) (r : Rule) : settledAmong c.settings.entries r = c.asSet r := by
  have found (s : RuleSetting) : (r.id, s) ∈ c.settings.entries ↔ c.settings.entries.lookup r.id = some s :=
    RuleSettings.foundEntry.symm
  unfold settledAmong asSet
  simp only [found]
  cases c.settings.entries.lookup r.id with
  | none => simp
  | some s => cases s <;> simp [RuleSetting.on]

/- What is off is told by its id, which no setting changes. -/
theorem retainedCatalogue (c : Config) :
    retained c.settings (c.declared.map (settledAmong c.settings.entries)) = c.catalogue := by
  have off (r : Rule) : (c.settings.find? (c.asSet r).id != some .off) = !c.isOff r := by
    rw [isOff, Bool.eq_iff_iff, bne_iff_ne, Bool.not_eq_true', decide_eq_false_iff_not]
    exact not_congr RuleSettings.foundEntry
  rw [retained, catalogue, funext (settledAsSet c), List.filter_map]
  exact congrArg (List.map c.asSet) (List.filter_congr fun r _ => off r)

/- The three passes together. -/
theorem activeRulesExact :
    c.activeRules = .ok rules ↔ Fresh Rule.builtin c.extraRules ∧ c.Known ∧ rules = c.catalogue := by
  have distinct (fresh : Fresh Rule.builtin c.extraRules) : (c.declared.map (·.id)).Nodup :=
    freshNodup (by decide) fresh
  constructor
  · intro gives
    obtain ⟨all, made, gives⟩ := bindAnswered.mp gives
    obtain ⟨fresh, rfl⟩ := (declareExact _ _ _).mp made
    obtain ⟨settled, put, gives⟩ := bindAnswered.mp gives
    obtain ⟨known, rfl⟩ := (settleAllExact c.settings.keyed (distinct fresh)).mp put
    cases gives
    exact ⟨fresh, known, retainedCatalogue c⟩
  · rintro ⟨fresh, known, rfl⟩
    have made := (declareExact Rule.builtin c.extraRules c.declared).mpr ⟨fresh, rfl⟩
    have put := (settleAllExact c.settings.keyed (distinct fresh)).mpr ⟨known, rfl⟩
    exact bindAnswered.mpr ⟨_, made, bindAnswered.mpr ⟨_, put, congrArg Except.ok (retainedCatalogue c)⟩⟩

/-! ### The order of the settings -/

section
variable {settings : RuleSettings} (same : settings.entries.Perm c.settings.entries)
include same

theorem knownPerm : Known { c with settings } ↔ c.Known :=
  ⟨fun known entry member => known entry (same.mem_iff.mpr member),
    fun known entry member => known entry (same.mem_iff.mp member)⟩

theorem cataloguePerm : catalogue { c with settings } = c.catalogue := by
  have off (r : Rule) : isOff { c with settings } r = c.isOff r := decide_eq_decide.mpr same.mem_iff
  have set (r : Rule) : asSet { c with settings } r = c.asSet r := by simp only [asSet, same.mem_iff]
  unfold catalogue
  rw [funext off, funext set]
  rfl

end

/- The ids of what is left are ids that were declared. -/
theorem catalogueNodup (fresh : Fresh Rule.builtin c.extraRules) : (c.catalogue.map (·.id)).Nodup := by
  have ids : c.catalogue.map (·.id) = (c.declared.filter (!c.isOff ·)).map (·.id) := by
    rw [catalogue, List.map_map]
    rfl
  rw [ids]
  exact (freshNodup (by decide) fresh).sublist (List.filter_sublist.map _)

theorem catalogueExact (c : Config) :
    ((∃ rules, c.activeRules = .ok rules) ↔ Fresh Rule.builtin c.extraRules ∧ c.Known) ∧
    (∀ rules, c.activeRules = .ok rules → rules = c.catalogue ∧ (rules.map (·.id)).Nodup) ∧
    ∀ settings : RuleSettings, settings.entries.Perm c.settings.entries → ∀ rules,
      activeRules { c with settings } = .ok rules ↔ c.activeRules = .ok rules := by
  refine ⟨⟨fun ⟨rules, gives⟩ => ?_, fun ⟨fresh, known⟩ => ?_⟩, fun rules gives => ?_, fun settings same rules => ?_⟩
  · obtain ⟨fresh, known, _⟩ := activeRulesExact.mp gives
    exact ⟨fresh, known⟩
  · exact ⟨c.catalogue, activeRulesExact.mpr ⟨fresh, known, rfl⟩⟩
  · obtain ⟨fresh, _, rfl⟩ := activeRulesExact.mp gives
    exact ⟨rfl, catalogueNodup fresh⟩
  · rw [activeRulesExact, activeRulesExact, knownPerm same, cataloguePerm same]

/- One rule is off, one is an error, and an extra rule is a warning. -/
theorem catalogueExactSet :
    let extra : Rule := ⟨"r", "", "m", none, .message, ⟨["f"], .any, .always⟩, .wrapper ["w"] "w"⟩
    let settings : RuleSettings :=
      ⟨[("r", .warning), ("set-state-after-await", .off), ("emit-after-await", .error)], by decide⟩
    let turned : RuleSettings := ⟨settings.entries.reverse, by decide⟩
    let c : Config := ⟨settings, [extra], [], []⟩
    c.activeRules = .ok [{ Rule.emitAfterAwait with category := .error },
        Rule.addToClosedController, Rule.unconstrainedTextInRow, { extra with category := .warning }] ∧
      activeRules { c with settings := turned } = c.activeRules := by
  intro extra settings turned c
  have gives : c.activeRules = .ok c.catalogue := by decide
  obtain ⟨_, exact', order⟩ := catalogueExact c
  refine ⟨?_, ?_⟩
  · rw [gives, (exact' _ gives).1]
    decide
  · rw [gives]
    exact (order turned (List.reverse_perm _) _).mpr gives

end Config
end CallGuard
