import CallGuard.Glob.Filter
import CallGuard.Rule.Builtin
import CallGuard.Rule.Json
import CallGuard.Run.Fault

/-! Configurations: which rules are active, as what they report, and which files count. -/
namespace CallGuard

/-- What becomes of a rule. -/
inductive RuleSetting
  | off | warning | error
  deriving DecidableEq, Repr

namespace RuleSetting

def all : List RuleSetting := [.off, .warning, .error]

def name : RuleSetting → String
  | .off => "off"
  | .warning => "warning"
  | .error => "error"

def ofName? (s : String) : Option RuleSetting := all.find? (·.name == s)

/-- The rule with the category that the setting asks for. One that is off is not changed. -/
def on : RuleSetting → Rule → Rule
  | .off, r => r
  | .warning, r => { r with category := .warning }
  | .error, r => { r with category := .error }

@[simp] theorem onId (s : RuleSetting) (r : Rule) : (s.on r).id = r.id := by cases s <;> rfl

end RuleSetting

/-- Settings by the ids of the rules that they are for, in the order in which the rules are named first. There is one
setting for each of them. -/
structure RuleSettings where
  entries : List (String × RuleSetting)
  keyed : (entries.map Prod.fst).Nodup
  deriving DecidableEq, Repr

namespace RuleSettings

def empty : RuleSettings := ⟨[], List.nodup_nil⟩

/-- The entries with one more, which takes the place of an earlier one for the same rule. -/
def putEntry (entries : List (String × RuleSetting)) (id : String) (s : RuleSetting) :
    List (String × RuleSetting) :=
  if id ∈ entries.map Prod.fst then
    entries.map fun (other, t) => if other = id then (other, s) else (other, t)
  else entries ++ [(id, s)]

theorem putKeys (entries : List (String × RuleSetting)) (id : String) (s : RuleSetting) :
    (putEntry entries id s).map Prod.fst =
      if id ∈ entries.map Prod.fst then entries.map Prod.fst else entries.map Prod.fst ++ [id] := by
  unfold putEntry
  split
  · rw [List.map_map]
    refine List.map_congr_left fun (other, t) _ => ?_
    change (if other = id then (other, s) else (other, t)).1 = other
    split <;> rfl
  · rw [List.map_append, List.map_singleton]

theorem putKeyed {entries : List (String × RuleSetting)} (keyed : (entries.map Prod.fst).Nodup) (id : String)
    (s : RuleSetting) : ((putEntry entries id s).map Prod.fst).Nodup := by
  rw [putKeys]
  split
  · exact keyed
  · rename_i fresh
    refine List.nodup_append.mpr ⟨keyed, List.nodup_cons.mpr ⟨List.not_mem_nil, List.nodup_nil⟩, ?_⟩
    intro other own last only same
    exact fresh (List.mem_singleton.mp only ▸ same ▸ own)

def put (settings : RuleSettings) (id : String) (s : RuleSetting) : RuleSettings :=
  ⟨putEntry settings.entries id s, putKeyed settings.keyed id s⟩

def ofPairs (pairs : List (String × RuleSetting)) : RuleSettings :=
  pairs.foldl (fun settings (id, s) => settings.put id s) empty

def find? (settings : RuleSettings) (id : String) : Option RuleSetting := settings.entries.lookup id

end RuleSettings

structure Config where
  settings : RuleSettings
  extraRules : List Rule
  /-- Patterns for the files to look at. -/
  kept : List String
  /-- Patterns for the files to leave out. -/
  dropped : List String
  deriving Repr

namespace Config

/-- What holds where nothing is configured. -/
def default : Config := ⟨.empty, [], [], []⟩

/-- The file that is looked for when no other is named. -/
def fileName : String := "guardlint.json"

/-! ### Reading -/

def settingShape : JsonShape := .name (RuleSetting.all.map RuleSetting.name)

def patternsShape : JsonShape := .list .text

/-- All fields may be missing, and no others may be there. -/
def fields : JsonShape.Fields :=
  { shapes := [("rules", .dictionary settingShape), ("extraRules", Rule.listShape),
      ("include", patternsShape), ("exclude", patternsShape)],
    required := [], others := false }

def settingOf? (member : Option String × Json) : Option (String × RuleSetting) := do
  let id ← member.1
  let s ← member.2.name?.bind RuleSetting.ofName?
  some (id, s)

def settingsOfJson? (j : Json) : Option RuleSettings := do
  some (RuleSettings.ofPairs (← (← j.members?).mapM settingOf?))

def ofJson? (j : Json) : Option Config := do
  let settings ← j.fieldOr fields.keys "rules" settingsOfJson? .empty
  let extraRules ← j.fieldOr fields.keys "extraRules" Rule.listOfJson? []
  let kept ← j.fieldOr fields.keys "include" Json.texts? []
  let dropped ← j.fieldOr fields.keys "exclude" Json.texts? []
  some ⟨settings, extraRules, kept, dropped⟩

def ofJson (j : Json) : Except JsonFault Config := do
  JsonShape.record fields j
  match ofJson? j with
  | some c => return c
  | none => throw .wrongShape

def ofText (text : List Char) : Except RunFault Config :=
  (Json.decodeText ofJson text).mapError .invalidConfig

/-! ### Rules and files -/

/-- The rules with more of them at the end, each under an id of its own. -/
def declare (rules : List Rule) : (extra : List Rule) → Except RunFault (List Rule)
  | [] => .ok rules
  | r :: rs => if rules.any (·.id == r.id) then .error (.repeatedRule r.id)
    else declare (rules ++ [r]) rs

/-- The rules with a setting on the first one of an id, unless there is none. -/
def settle? (id : String) (s : RuleSetting) : (rules : List Rule) → Option (List Rule)
  | [] => none
  | r :: rs => if r.id = id then some (s.on r :: rs) else (settle? id s rs).map (r :: ·)

/-- Puts the settings on the rules, one after the other. Each has to be for one of them. -/
def settleAll (rules : List Rule) : (entries : List (String × RuleSetting)) → Except RunFault (List Rule)
  | [] => .ok rules
  | (id, s) :: entries =>
    match settle? id s rules with
    | some rules => settleAll rules entries
    | none => .error (.unknownRule id)

/-- The rules that are not off. -/
def retained (settings : RuleSettings) (rules : List Rule) : List Rule :=
  rules.filter fun r => settings.find? r.id != some .off

/-- The built-in rules and the extra ones, as they are set. -/
def activeRules (c : Config) : Except RunFault (List Rule) := do
  let rules ← declare Rule.builtin c.extraRules
  let settled ← settleAll rules c.settings.entries
  return retained c.settings settled

def filter (c : Config) : Except RunFault FileFilter :=
  (FileFilter.ofPatterns c.kept c.dropped).mapError .badPattern

end Config

end CallGuard
