import CallGuard.Json.Read
import CallGuard.Json.Shape
import CallGuard.Rule.Basic

/-! Rules as JSON. Every field of a rule is a member of an object; a receiver, an applicability and
a guard are records of several kinds. Members that mean nothing are passed over. -/
namespace CallGuard

open JsonShape (text flag list record storedRecord tagged)

/-! ### What rules are written as -/

def Json.ofTexts (texts : List String) : Json := .list (texts.map .string)

def Predicate.toJson (p : Predicate) : Json :=
  .record [("name", .string p.name), ("safeWhen", .bool p.safeWhen)]

namespace ReceiverRequirement

def toJson : ReceiverRequirement → Json
  | .any => .record [("kind", .string "any")]
  | .this => .record [("kind", .string "this")]
  | .typed types => .record [("kind", .string "typed"), ("types", .ofTexts types)]
  | .unqualified => .record [("kind", .string "unqualified")]

end ReceiverRequirement

namespace Applicability

def toJson : Applicability → Json
  | .always => .record [("kind", .string "always")]
  | .asyncFunction => .record [("kind", .string "asyncFunction")]
  | .afterSuspension => .record [("kind", .string "afterSuspension")]
  | .containerSlot containers slot =>
    .record [("kind", .string "containerSlot"), ("containers", .ofTexts containers),
      ("slot", .string slot)]

end Applicability

namespace GuardSpec

def toJson : GuardSpec → Json
  | .condition predicates =>
    .record [("kind", .string "condition"), ("predicates", .list (predicates.map (·.toJson)))]
  | .wrapper wrappers preferred =>
    .record [("kind", .string "wrapper"), ("wrappers", .ofTexts wrappers),
      ("preferred", .string preferred)]

end GuardSpec

def OperationMatcher.toJson (m : OperationMatcher) : Json :=
  .record [("operations", .ofTexts m.operations), ("receiver", m.receiver.toJson),
    ("applicability", m.applicability.toJson)]

/-- A rule without a correction has no member for it. -/
def Rule.toJson (r : Rule) : Json :=
  .record <| [("id", .string r.id), ("description", .string r.description),
      ("message", .string r.message)] ++
    (r.correction?.map fun c => ("correction", Json.string c)).toList ++
    [("category", .string r.category.name), ("matcher", r.matcher.toJson),
      ("guard", r.guard.toJson)]

/-! ### What is demanded of a text that should hold rules -/

namespace Predicate

def fields : JsonShape.Fields :=
  { shapes := [("name", text), ("safeWhen", flag)], required := ["name", "safeWhen"],
    others := true }

def ofJson? (j : Json) : Option Predicate := do
  let name ← (j.field? fields.keys "name").bind Json.text?
  let safeWhen ← (j.field? fields.keys "safeWhen").bind Json.flag?
  some ⟨name, safeWhen⟩

end Predicate

namespace ReceiverRequirement

/-- The fields of a kind without any. -/
def noFields : JsonShape.Fields := { shapes := [], required := [], others := true }

def typedFields : JsonShape.Fields :=
  { shapes := [("types", list text)], required := ["types"], others := true }

def kinds : JsonShape.Kinds :=
  [("any", noFields), ("this", noFields), ("typed", typedFields), ("unqualified", noFields)]

def ofJson? (j : Json) : Option ReceiverRequirement := do
  match ← j.kind? with
  | "any" => some .any
  | "this" => some .this
  | "typed" => some (.typed (← (j.content.field? typedFields.keys "types").bind Json.texts?))
  | "unqualified" => some .unqualified
  | _ => none

end ReceiverRequirement

namespace Applicability

def containerFields : JsonShape.Fields :=
  { shapes := [("containers", list text), ("slot", text)], required := ["containers", "slot"],
    others := true }

def kinds : JsonShape.Kinds :=
  [("always", ReceiverRequirement.noFields), ("asyncFunction", ReceiverRequirement.noFields),
    ("afterSuspension", ReceiverRequirement.noFields), ("containerSlot", containerFields)]

def ofJson? (j : Json) : Option Applicability := do
  match ← j.kind? with
  | "always" => some .always
  | "asyncFunction" => some .asyncFunction
  | "afterSuspension" => some .afterSuspension
  | "containerSlot" =>
    let containers ← (j.content.field? containerFields.keys "containers").bind Json.texts?
    let slot ← (j.content.field? containerFields.keys "slot").bind Json.text?
    some (.containerSlot containers slot)
  | _ => none

end Applicability

namespace GuardSpec

def conditionFields : JsonShape.Fields :=
  { shapes := [("predicates", list (storedRecord Predicate.fields))], required := ["predicates"],
    others := true }

def wrapperFields : JsonShape.Fields :=
  { shapes := [("wrappers", list text), ("preferred", text)], required := ["wrappers", "preferred"],
    others := true }

def kinds : JsonShape.Kinds := [("condition", conditionFields), ("wrapper", wrapperFields)]

def ofJson? (j : Json) : Option GuardSpec := do
  match ← j.kind? with
  | "condition" =>
    let items ← (j.content.field? conditionFields.keys "predicates").bind Json.items?
    some (.condition (← items.mapM Predicate.ofJson?))
  | "wrapper" =>
    let wrappers ← (j.content.field? wrapperFields.keys "wrappers").bind Json.texts?
    let preferred ← (j.content.field? wrapperFields.keys "preferred").bind Json.text?
    some (.wrapper wrappers preferred)
  | _ => none

end GuardSpec

/-- The value of a field that may be missing. -/
def Json.fieldOr (j : Json) (keys : List String) (key : String) (read? : Json → Option α)
    (default : α) : Option α :=
  match j.field? keys key with
  | some value => read? value
  | none => some default

namespace OperationMatcher

def fields : JsonShape.Fields :=
  { shapes := [("operations", list text), ("receiver", tagged ReceiverRequirement.kinds),
      ("applicability", tagged Applicability.kinds)],
    required := ["operations"], others := true }

/-- Any receiver and any place will do unless the matcher says otherwise. -/
def ofJson? (j : Json) : Option OperationMatcher := do
  let operations ← (j.field? fields.keys "operations").bind Json.texts?
  let receiver ← j.fieldOr fields.keys "receiver" ReceiverRequirement.ofJson? .any
  let applicability ← j.fieldOr fields.keys "applicability" Applicability.ofJson? .always
  some ⟨operations, receiver, applicability⟩

end OperationMatcher

namespace Category

def all : List Category := [.warning, .error, .suggestion, .message]

def ofName? (name : String) : Option Category := all.find? (·.name == name)

end Category

namespace Rule

def fields : JsonShape.Fields :=
  { shapes := [("id", text), ("description", text), ("message", text),
      ("correction", JsonShape.optionalText),
      ("category", JsonShape.name (Category.all.map Category.name)),
      ("matcher", record OperationMatcher.fields), ("guard", tagged GuardSpec.kinds)],
    required := ["id", "message", "matcher", "guard"], others := true }

/-- The rule that a value of the right shape is. A rule is a warning, without a description and
without a correction, unless it says otherwise. -/
def ofJson? (j : Json) : Option Rule := do
  let id ← (j.field? fields.keys "id").bind Json.text?
  let description ← j.fieldOr fields.keys "description" Json.text? ""
  let message ← (j.field? fields.keys "message").bind Json.text?
  let correction? ← j.fieldOr fields.keys "correction" (fun c => some c.text?) none
  let category ← j.fieldOr fields.keys "category" (fun c => c.name?.bind Category.ofName?) .warning
  let matcher ← (j.field? fields.keys "matcher").bind OperationMatcher.ofJson?
  let guard ← (j.field? fields.keys "guard").bind GuardSpec.ofJson?
  some { id, description, message, correction?, category, matcher, guard }

/-- A rule, or what is wrong first. -/
def ofJson (j : Json) : Except JsonFault Rule := do
  record fields j
  match ofJson? j with
  | some r => return r
  | none => throw .wrongShape

def listShape : JsonShape := list (record fields)

/-- The rules in a list. -/
def listOfJson? (j : Json) : Option (List Rule) := do (← j.items?).mapM ofJson?

/-- A list of rules, or what is wrong first. -/
def listOfJson (j : Json) : Except JsonFault (List Rule) := do
  listShape j
  match listOfJson? j with
  | some rs => return rs
  | none => throw .wrongShape

/-- The rules that a text declares. -/
def listOfText (text : List Char) : Except JsonFault (List Rule) := Json.decodeText listOfJson text

/-- The rule that a text declares. -/
def ofText (text : List Char) : Except JsonFault Rule := Json.decodeText ofJson text

def listToJson (rules : List Rule) : Json := .list (rules.map toJson)

end Rule

end CallGuard
