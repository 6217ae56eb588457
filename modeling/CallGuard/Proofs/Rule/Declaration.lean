import CallGuard.Proofs.Json.Layout
import CallGuard.Proofs.Json.Rearranged
import CallGuard.Rule.Json

/-! Rules survive JSON. Rules that were written are read back, whatever the layout; and a text that declares
rules goes on to declare the same ones when its fields come in another order and fields that mean nothing
are added. -/
namespace CallGuard

open Json (Plain Layout)
open JsonShape (text flag record storedRecord tagged Listed Fields Kinds)

/-! ### What is written -/

theorem Json.textsPlain (room : Nat) (texts : List String) : (Json.ofTexts texts).Plain (room + 1) :=
  .list fun item among => by
    obtain ⟨s, _, rfl⟩ := List.mem_map.mp among
    exact .string s

theorem Predicate.plain (room : Nat) (p : Predicate) : p.toJson.Plain (room + 1) :=
  .record fun m among => by
    simp only [List.mem_cons, List.not_mem_nil, or_false] at among
    obtain rfl | rfl := among
    · exact .string _
    · exact .bool _

theorem Json.predicatesPlain (room : Nat) (predicates : List Predicate) :
    (Json.list (predicates.map (·.toJson))).Plain (room + 2) :=
  .list fun item among => by
    obtain ⟨p, _, rfl⟩ := List.mem_map.mp among
    exact p.plain room

theorem ReceiverRequirement.plain (room : Nat) (r : ReceiverRequirement) : r.toJson.Plain (room + 2) := by
  cases r <;> refine .record fun m among => ?_ <;>
    simp only [List.mem_cons, List.not_mem_nil, or_false] at among
  case typed =>
    obtain rfl | rfl := among
    · exact .string _
    · exact Json.textsPlain room _
  all_goals
    subst among
    exact .string _

theorem Applicability.plain (room : Nat) (a : Applicability) : a.toJson.Plain (room + 2) := by
  cases a <;> refine .record fun m among => ?_ <;>
    simp only [List.mem_cons, List.not_mem_nil, or_false] at among
  case containerSlot =>
    obtain rfl | rfl | rfl := among
    · exact .string _
    · exact Json.textsPlain room _
    · exact .string _
  all_goals
    subst among
    exact .string _

theorem GuardSpec.plain (room : Nat) (g : GuardSpec) : g.toJson.Plain (room + 3) := by
  cases g <;> refine .record fun m among => ?_ <;>
    simp only [List.mem_cons, List.not_mem_nil, or_false] at among
  case condition =>
    obtain rfl | rfl := among
    · exact .string _
    · exact Json.predicatesPlain room _
  case wrapper =>
    obtain rfl | rfl | rfl := among
    · exact .string _
    · exact Json.textsPlain (room + 1) _
    · exact .string _

theorem OperationMatcher.plain (room : Nat) (m : OperationMatcher) : m.toJson.Plain (room + 3) :=
  .record fun field among => by
    simp only [List.mem_cons, List.not_mem_nil, or_false] at among
    obtain rfl | rfl | rfl := among
    · exact Json.textsPlain (room + 1) _
    · exact m.receiver.plain room
    · exact m.applicability.plain room

namespace Rule

theorem plain (room : Nat) (r : Rule) : r.toJson.Plain (room + 4) :=
  .record fun m among => by
    simp only [List.mem_append, List.mem_cons, List.not_mem_nil, or_false, Option.mem_toList,
      Option.map_eq_some_iff] at among
    obtain ((rfl | rfl | rfl) | ⟨c, _, rfl⟩) | rfl | rfl | rfl := among
    iterate 5 exact .string _
    · exact r.matcher.plain room
    · exact r.guard.plain room

theorem listPlain (room : Nat) (rules : List Rule) : (listToJson rules).Plain (room + 5) :=
  .list fun item among => by
    obtain ⟨r, _, rfl⟩ := List.mem_map.mp among
    exact r.plain room

end Rule

/-! ### What was written is read -/

/- Nothing in a plain value has to be passed over. -/
theorem Json.Plain.readable {room : Nat} {j : Json} (plain : j.Plain room) : j.Readable := by
  induction plain with
  | list _ ih =>
    rw [Json.Readable, Json.list, Json.formFault?, Option.map_none, Option.or_none]
    exact Json.itemsWhole.mpr ih
  | record _ ih =>
    rw [Json.Readable, Json.record, Json.formFault?, Option.map_none, Option.or_none]
    exact Json.readableKeyed ih
  | _ => simp only [Json.Readable, Json.formFault?]

section
variable {α : Type} {shape : JsonShape} {read? : Json → Option α} {write : α → Json}

/- What is written for something fits a shape and is read as it. -/
def Comes (shape : JsonShape) (read? : Json → Option α) (write : α → Json) : Prop :=
  ∀ a, shape (write a) = .ok () ∧ read? (write a) = some a

theorem listComes (each : Comes shape read? write) :
    Comes (JsonShape.list shape) (fun j => do (← j.items?).mapM read?) fun as => .list (as.map write) := by
  refine fun as => ⟨JsonShape.listPassed.mpr fun item among => ?_, ?_⟩
  · obtain ⟨a, _, rfl⟩ := List.mem_map.mp among
    exact (each a).1
  · show (as.map write).mapM read? = some as
    induction as with
    | nil => rfl
    | cons a as ih =>
      rw [List.map_cons, List.mapM_cons, (each a).2, ih]
      rfl

theorem textsCome : Comes (JsonShape.list text) Json.texts? Json.ofTexts :=
  listComes fun _ => ⟨rfl, rfl⟩

end

theorem Predicate.comes : Comes (storedRecord Predicate.fields) Predicate.ofJson? Predicate.toJson :=
  fun _ => ⟨rfl, rfl⟩

/- A record of some kind that is written with just its fields behind the kind. -/
theorem keyedFits {kinds : Kinds} {kind : String} {j : Json} {room : Nat} (f : Fields)
    (members : List (String × Json)) (plain : j.Plain room) (own : j.tags = [.string kind])
    (among : kinds.lookup kind = some f) (rest : j.content = .record members)
    (apart : (members.map (·.1)).Nodup) (there : f.required ⊆ members.map (·.1))
    (each : ∀ m ∈ members, ∃ shape, f.shapes.lookup m.1 = some shape ∧ shape m.2 = .ok ()) :
    tagged kinds j = .ok () :=
  JsonShape.Kinds.taggedPassed.mpr
    ⟨plain.readable, kind, f, own, among, rest ▸ Fields.recordFits each apart there⟩

theorem ReceiverRequirement.comes : Comes (tagged ReceiverRequirement.kinds) ofJson? toJson := by
  intro r
  cases r with
  | typed types =>
    obtain ⟨fits, read⟩ := textsCome types
    have chosen : ofJson? (typed types).toJson =
        (Json.ofTexts types).texts?.bind fun types => some (.typed types) := rfl
    constructor
    · refine keyedFits typedFields [("types", .ofTexts types)] ((typed types).plain 0) rfl rfl rfl (by simp)
        (List.Subset.refl _) ?_
      exact List.forall_mem_singleton.mpr ⟨_, rfl, fits⟩
    · rw [chosen, read]
      rfl
  | _ => exact ⟨rfl, rfl⟩

theorem Applicability.comes : Comes (tagged Applicability.kinds) ofJson? toJson := by
  intro a
  cases a with
  | containerSlot containers slot =>
    obtain ⟨fits, read⟩ := textsCome containers
    have chosen : ofJson? (containerSlot containers slot).toJson =
        (Json.ofTexts containers).texts?.bind fun containers => some (.containerSlot containers slot) := rfl
    constructor
    · refine keyedFits containerFields [("containers", .ofTexts containers), ("slot", .string slot)]
        ((containerSlot containers slot).plain 0) rfl rfl rfl (by simp) (List.Subset.refl _) ?_
      exact List.forall_mem_cons.mpr ⟨⟨_, rfl, fits⟩, List.forall_mem_singleton.mpr ⟨_, rfl, rfl⟩⟩
    · rw [chosen, read]
      rfl
  | _ => exact ⟨rfl, rfl⟩

theorem GuardSpec.comes : Comes (tagged GuardSpec.kinds) ofJson? toJson := by
  intro g
  cases g with
  | condition predicates =>
    obtain ⟨fits, read⟩ := listComes Predicate.comes predicates
    have chosen : ofJson? (condition predicates).toJson =
        (predicates.map (·.toJson)).mapM Predicate.ofJson? >>= fun predicates =>
          some (.condition predicates) := rfl
    have each : (predicates.map (·.toJson)).mapM Predicate.ofJson? = some predicates := read
    constructor
    · refine keyedFits conditionFields [("predicates", .list (predicates.map (·.toJson)))]
        ((condition predicates).plain 0) rfl rfl rfl (by simp) (List.Subset.refl _) ?_
      exact List.forall_mem_singleton.mpr ⟨_, rfl, fits⟩
    · rw [chosen, each]
      rfl
  | wrapper wrappers preferred =>
    obtain ⟨fits, read⟩ := textsCome wrappers
    have chosen : ofJson? (wrapper wrappers preferred).toJson =
        (Json.ofTexts wrappers).texts?.bind fun wrappers => some (.wrapper wrappers preferred) := rfl
    constructor
    · refine keyedFits wrapperFields [("wrappers", .ofTexts wrappers), ("preferred", .string preferred)]
        ((wrapper wrappers preferred).plain 0) rfl rfl rfl (by simp) (List.Subset.refl _) ?_
      exact List.forall_mem_cons.mpr ⟨⟨_, rfl, fits⟩, List.forall_mem_singleton.mpr ⟨_, rfl, rfl⟩⟩
    · rw [chosen, read]
      rfl

theorem OperationMatcher.comes : Comes (record OperationMatcher.fields) ofJson? toJson := by
  intro ⟨operations, receiver, applicability⟩
  obtain ⟨operates, operationsRead⟩ := textsCome operations
  obtain ⟨receives, receiverRead⟩ := ReceiverRequirement.comes receiver
  obtain ⟨applies, placeRead⟩ := Applicability.comes applicability
  have chosen : ofJson? (OperationMatcher.mk operations receiver applicability).toJson =
      (Json.ofTexts operations).texts?.bind fun operations =>
        (ReceiverRequirement.ofJson? receiver.toJson).bind fun receiver =>
          (Applicability.ofJson? applicability.toJson).bind fun applicability =>
            some ⟨operations, receiver, applicability⟩ := rfl
  constructor
  · refine Fields.recordFits ?_ (by simp) (by simp [fields])
    exact List.forall_mem_cons.mpr ⟨⟨_, rfl, operates⟩, List.forall_mem_cons.mpr
      ⟨⟨_, rfl, receives⟩, List.forall_mem_singleton.mpr ⟨_, rfl, applies⟩⟩⟩
  · rw [chosen, operationsRead, receiverRead, placeRead]
    rfl

theorem Category.comes : Comes (JsonShape.name (Category.all.map Category.name))
    (fun c => c.name?.bind Category.ofName?) fun c => .string c.name := by
  intro c
  cases c <;> exact ⟨rfl, rfl⟩

theorem Rule.comes : Comes (record Rule.fields) ofJson? toJson := by
  intro ⟨id, description, message, correction?, category, matcher, guard⟩
  obtain ⟨categorized, categoryRead⟩ := Category.comes category
  obtain ⟨matching, matcherRead⟩ := OperationMatcher.comes matcher
  obtain ⟨guarding, guardRead⟩ := GuardSpec.comes guard
  have chosen : ofJson? (Rule.mk id description message correction? category matcher guard).toJson =
      ((Category.ofName? category.name).bind fun category =>
        (OperationMatcher.ofJson? matcher.toJson).bind fun matcher =>
          (GuardSpec.ofJson? guard.toJson).bind fun guard =>
            some (Rule.mk id description message correction? category matcher guard)) := by
    cases correction? <;> rfl
  have name : (Category.ofName? category.name) = some category := categoryRead
  have last : ∀ m ∈ [("category", Json.string category.name), ("matcher", matcher.toJson),
      ("guard", guard.toJson)], ∃ shape, fields.shapes.lookup m.1 = some shape ∧ shape m.2 = .ok () :=
    List.forall_mem_cons.mpr ⟨⟨_, rfl, categorized⟩, List.forall_mem_cons.mpr
      ⟨⟨_, rfl, matching⟩, List.forall_mem_singleton.mpr ⟨_, rfl, guarding⟩⟩⟩
  constructor
  · have each : ∀ m ∈ [("id", Json.string id), ("description", .string description),
          ("message", .string message)] ++ (correction?.map fun c => ("correction", Json.string c)).toList ++
          [("category", .string category.name), ("matcher", matcher.toJson), ("guard", guard.toJson)],
        ∃ shape, fields.shapes.lookup m.1 = some shape ∧ shape m.2 = .ok () := by
      refine List.forall_mem_append.mpr ⟨List.forall_mem_append.mpr ⟨?_, fun m among => ?_⟩, last⟩
      · exact List.forall_mem_cons.mpr ⟨⟨_, rfl, rfl⟩, List.forall_mem_cons.mpr
          ⟨⟨_, rfl, rfl⟩, List.forall_mem_singleton.mpr ⟨_, rfl, rfl⟩⟩⟩
      · obtain ⟨c, _, rfl⟩ := Option.map_eq_some_iff.mp (Option.mem_toList.mp among)
        exact ⟨_, rfl, rfl⟩
    refine Fields.recordFits each ?_ ?_ <;> cases correction? <;> simp [fields]
  · rw [chosen, name, matcherRead, guardRead]
    rfl

theorem Rule.listComes : Comes Rule.listShape Rule.listOfJson? Rule.listToJson := CallGuard.listComes Rule.comes

namespace Rule

/- A list of rules is read back from what it is written as, in any layout. -/
theorem writtenRead (layout : Layout) (rules : List Rule) :
    listOfText (layout.write (listToJson rules)) = .ok rules := by
  obtain ⟨fits, read⟩ := listComes rules
  have written := Json.ofWritten layout (listPlain 122 rules)
  rw [listOfText, Json.decodeText, written, listOfJson, fits]
  simp only [read]
  rfl

end Rule

/-! ### Rearrangements -/

/- How a predicate may change. -/
def Predicate.Rearranged : Json → Json → Prop := Predicate.fields.Rearranged fun _ => Eq

def ReceiverRequirement.Rearranged : Json → Json → Prop := ReceiverRequirement.kinds.Rearranged fun _ => Eq

def Applicability.Rearranged : Json → Json → Prop := Applicability.kinds.Rearranged fun _ => Eq

def GuardSpec.change : String → Json → Json → Prop
  | "predicates" => Listed Predicate.Rearranged
  | _ => Eq

def GuardSpec.Rearranged : Json → Json → Prop := GuardSpec.kinds.Rearranged change

def OperationMatcher.change : String → Json → Json → Prop
  | "receiver" => ReceiverRequirement.Rearranged
  | "applicability" => Applicability.Rearranged
  | _ => Eq

def OperationMatcher.Rearranged : Json → Json → Prop := OperationMatcher.fields.Rearranged change

def Rule.change : String → Json → Json → Prop
  | "matcher" => OperationMatcher.Rearranged
  | "guard" => GuardSpec.Rearranged
  | _ => Eq

def Rule.Rearranged : Json → Json → Prop := Rule.fields.Rearranged change

/-- Lists of rules of which the second says the same: fields in another order, the kind of a record in
another place, and fields that mean nothing added or left out. -/
def Rule.ListRearranged : Json → Json → Prop := Listed Rule.Rearranged

open JsonShape (Bears Keeps bearsEq keepsEq)

theorem Predicate.bears : (storedRecord Predicate.fields).Bears Predicate.Rearranged :=
  Fields.recordBears (List.Subset.refl _) rfl fun _ _ => bearsEq _

theorem Predicate.keeps : (storedRecord Predicate.fields).Keeps Predicate.ofJson? Predicate.Rearranged := by
  intro j j' fits rearranged sound
  have name := Fields.fieldBound "name" rearranged fits sound rfl (keepsEq text Json.text?)
  have safeWhen := Fields.fieldBound "safeWhen" rearranged fits sound rfl (keepsEq flag Json.flag?)
  rw [ofJson?, ofJson?, name, safeWhen]

/- A kind without fields, and one whose fields are not changed. -/
theorem noFieldsBear (change : String → Json → Json → Prop) :
    ReceiverRequirement.noFields.Closed ∧ ReceiverRequirement.noFields.others = true ∧
      ReceiverRequirement.noFields.Bear change :=
  ⟨List.Subset.refl _, rfl, fun _ among => (nomatch among)⟩

theorem ReceiverRequirement.bears : (tagged kinds).Bears Rearranged := by
  refine Kinds.taggedBears ?_
  simp only [kinds, List.forall_mem_cons]
  exact ⟨noFieldsBear _, noFieldsBear _, ⟨List.Subset.refl _, rfl, fun _ _ => bearsEq _⟩, noFieldsBear _,
    fun _ among => (nomatch among)⟩

theorem ReceiverRequirement.keeps : (tagged kinds).Keeps ofJson? Rearranged := by
  intro j j' fits rearranged _
  obtain ⟨name, f, pair⟩ := rearranged.pair fits
  rw [ofJson?, ofJson?, Json.kindTagged pair.before, Json.kindTagged pair.after]
  simp only [Option.bind_eq_bind, Option.bind_some]
  split
  case h_3 =>
    cases pair.among
    rw [Fields.fieldBound "types" pair.rearranged pair.fits pair.sound rfl (keepsEq _ Json.texts?)]
  all_goals rfl

theorem Applicability.bears : (tagged kinds).Bears Rearranged := by
  refine Kinds.taggedBears ?_
  simp only [kinds, List.forall_mem_cons]
  exact ⟨noFieldsBear _, noFieldsBear _, noFieldsBear _, ⟨List.Subset.refl _, rfl, fun _ _ => bearsEq _⟩,
    fun _ among => (nomatch among)⟩

theorem Applicability.keeps : (tagged kinds).Keeps ofJson? Rearranged := by
  intro j j' fits rearranged _
  obtain ⟨name, f, pair⟩ := rearranged.pair fits
  rw [ofJson?, ofJson?, Json.kindTagged pair.before, Json.kindTagged pair.after]
  simp only [Option.bind_eq_bind, Option.bind_some]
  split
  case h_4 =>
    cases pair.among
    rw [Fields.fieldBound "containers" pair.rearranged pair.fits pair.sound rfl (keepsEq _ Json.texts?),
      Fields.fieldBound "slot" pair.rearranged pair.fits pair.sound rfl (keepsEq _ Json.text?)]
  all_goals rfl

theorem GuardSpec.bears : (tagged kinds).Bears Rearranged := by
  refine Kinds.taggedBears ?_
  simp only [kinds, List.forall_mem_cons]
  refine ⟨⟨List.Subset.refl _, rfl, ?_⟩, ⟨List.Subset.refl _, rfl, ?_⟩, fun _ among => (nomatch among)⟩
  · exact List.forall_mem_singleton.mpr (JsonShape.listBears Predicate.bears)
  · exact List.forall_mem_cons.mpr ⟨bearsEq _, List.forall_mem_singleton.mpr (bearsEq _)⟩

theorem GuardSpec.keeps : (tagged kinds).Keeps ofJson? Rearranged := by
  intro j j' fits rearranged _
  obtain ⟨name, f, pair⟩ := rearranged.pair fits
  rw [ofJson?, ofJson?, Json.kindTagged pair.before, Json.kindTagged pair.after]
  simp only [Option.bind_eq_bind, Option.bind_some]
  split
  case h_1 =>
    cases pair.among
    have same := Fields.fieldBound "predicates" pair.rearranged pair.fits pair.sound rfl
      (JsonShape.listKeeps Predicate.keeps)
    have joined : ∀ value? : Option Json, ((value?.bind Json.items?).bind fun items =>
        (items.mapM Predicate.ofJson?).bind fun predicates => some (condition predicates)) =
        (value?.bind fun value => do (← value.items?).mapM Predicate.ofJson?).map condition := fun value? => by
      simp only [Option.bind_eq_bind, Option.map_eq_bind, Option.bind_assoc]
      rfl
    rw [joined, joined]
    exact congrArg (Option.map condition) same
  case h_2 =>
    cases pair.among
    rw [Fields.fieldBound "wrappers" pair.rearranged pair.fits pair.sound rfl (keepsEq _ Json.texts?),
      Fields.fieldBound "preferred" pair.rearranged pair.fits pair.sound rfl (keepsEq _ Json.text?)]
  all_goals rfl

theorem OperationMatcher.bears : (record fields).Bears Rearranged :=
  Fields.recordBears (by simp [Fields.Closed, fields, Fields.keys]) rfl
    (List.forall_mem_cons.mpr ⟨bearsEq _, List.forall_mem_cons.mpr ⟨ReceiverRequirement.bears,
      List.forall_mem_singleton.mpr Applicability.bears⟩⟩)

theorem OperationMatcher.keeps : (record fields).Keeps ofJson? Rearranged := by
  intro j j' fits rearranged sound
  rw [ofJson?, ofJson?, Fields.fieldBound "operations" rearranged fits sound rfl (keepsEq _ Json.texts?),
    Fields.fieldDefault "receiver" rearranged fits sound rfl ReceiverRequirement.keeps .any,
    Fields.fieldDefault "applicability" rearranged fits sound rfl Applicability.keeps .always]

theorem Rule.bears : (record fields).Bears Rearranged := by
  refine Fields.recordBears (by simp [Fields.Closed, fields, Fields.keys]) rfl ?_
  simp only [Fields.Bear, fields, List.forall_mem_cons]
  exact ⟨bearsEq _, bearsEq _, bearsEq _, bearsEq _, bearsEq _, OperationMatcher.bears, GuardSpec.bears,
    List.forall_mem_nil _⟩

theorem Rule.keeps : (record fields).Keeps ofJson? Rearranged := by
  intro j j' fits rearranged sound
  rw [ofJson?, ofJson?, Fields.fieldBound "id" rearranged fits sound rfl (keepsEq _ Json.text?),
    Fields.fieldDefault "description" rearranged fits sound rfl (keepsEq _ Json.text?) "",
    Fields.fieldBound "message" rearranged fits sound rfl (keepsEq _ Json.text?),
    Fields.fieldDefault "correction" rearranged fits sound rfl (keepsEq _ fun c => some c.text?) none,
    Fields.fieldDefault "category" rearranged fits sound rfl
      (keepsEq _ fun c => c.name?.bind Category.ofName?) .warning,
    Fields.fieldBound "matcher" rearranged fits sound rfl OperationMatcher.keeps,
    Fields.fieldBound "guard" rearranged fits sound rfl GuardSpec.keeps]

theorem Rule.listBears : (listShape).Bears ListRearranged := JsonShape.listBears Rule.bears

theorem Rule.listKeeps : (listShape).Keeps listOfJson? ListRearranged := JsonShape.listKeeps Rule.keeps

/-- A text that is JSON: one value, and nothing but blanks behind it. -/
structure Json.Formed (text : List Char) : Prop where
  sound : (Json.ofText text).value.Sound
  last : (Json.ofText text).rest?.any (fun rest => rest.all Reader.isBlank) = true

namespace Rule

theorem listDecoded {j : Json} {rules : List Rule} :
    listOfJson j = .ok rules ↔ listShape j = .ok () ∧ listOfJson? j = some rules := by
  rw [listOfJson, Except.thenPassed]
  refine and_congr_right fun _ => ?_
  cases listOfJson? j with
  | none => exact ⟨fun gives => (nomatch gives), fun gives => (nomatch gives)⟩
  | some read => exact ⟨fun gives => congrArg some (Except.ok.inj gives), 
      fun gives => congrArg Except.ok (Option.some.inj gives)⟩

theorem listAnswered {text : List Char} {rules : List Rule} : listOfText text = .ok rules ↔
    listShape (Json.ofText text).value = .ok () ∧ listOfJson? (Json.ofText text).value = some rules ∧
      (Json.ofText text).rest?.any (fun rest => rest.all Json.Reader.isBlank) = true := by
  rw [listOfText, Json.decodeText, bindAnswered, ← and_assoc]
  simp only [listDecoded]
  constructor
  · intro ⟨read, decoded, last⟩
    split at last
    · cases last
      exact ⟨decoded, ‹_›⟩
    · cases last
  · intro ⟨decoded, last⟩
    exact ⟨rules, decoded, if_pos last⟩

/- Rules that were read are read again after a rearrangement. -/
theorem rearrangedRead {text text' : List Char} {rules : List Rule} (reads : listOfText text = .ok rules)
    (rearranged : ListRearranged (Json.ofText text).value (Json.ofText text').value)
    (formed : Json.Formed text') : listOfText text' = .ok rules := by
  obtain ⟨fits, read, _⟩ := listAnswered.mp reads
  have same := listKeeps _ _ fits rearranged formed.sound
  exact listAnswered.mpr ⟨listBears _ _ fits rearranged formed.sound, same.trans read, formed.last⟩

/- Declarations survive JSON: written in any layout they are read back, and rearranged they are read the
same. -/
theorem declarationsSurvive :
    (∀ (layout : Layout) (rules : List Rule), listOfText (layout.write (listToJson rules)) = .ok rules) ∧
    (∀ rules : List Rule, listOfText (listToJson rules).pretty.toList = .ok rules) ∧
    ∀ (text text' : List Char) (rules : List Rule), listOfText text = .ok rules →
      ListRearranged (Json.ofText text).value (Json.ofText text').value → Json.Formed text' →
      listOfText text' = .ok rules := by
  refine ⟨writtenRead, fun rules => ?_, fun _ _ _ => rearrangedRead⟩
  rw [← Layout.prettyWrite]
  exact writtenRead _ rules

/- The fields of a rule and of its guard the other way round, the kind last, and members added that mean
nothing. -/
theorem declarationsSurviveReversed :
    listOfText (Layout.compact.write (.list [.record
      [("id", .string "r"), ("message", .string "m"), ("matcher", .record [("operations", .ofTexts ["f"])]),
        ("guard", .record [("kind", .string "wrapper"), ("wrappers", .ofTexts ["w"]),
          ("preferred", .string "w")])]])) =
      .ok [⟨"r", "", "m", none, .warning, ⟨["f"], .any, .always⟩, .wrapper ["w"] "w"⟩] ∧
    listOfText (Layout.pretty.write (.list [.record
      [("guard", .record [("preferred", .string "w"), ("x", .null), ("wrappers", .ofTexts ["w"]),
          ("kind", .string "wrapper")]),
        ("matcher", .record [("operations", .ofTexts ["f"]), ("x", .null)]), ("kind", .null),
        ("message", .string "m"), ("id", .string "r")]])) =
      .ok [⟨"r", "", "m", none, .warning, ⟨["f"], .any, .always⟩, .wrapper ["w"] "w"⟩] := by
  have usual : (Json.list [.record
      [("id", .string "r"), ("message", .string "m"), ("matcher", .record [("operations", .ofTexts ["f"])]),
        ("guard", .record [("kind", .string "wrapper"), ("wrappers", .ofTexts ["w"]),
          ("preferred", .string "w")])]]).Plain 127 := by
    refine .list (List.forall_mem_singleton.mpr (.record ?_))
    simp only [List.forall_mem_cons]
    refine ⟨.string _, .string _, .record ?_, .record ?_, nofun⟩
    · exact List.forall_mem_singleton.mpr (Json.textsPlain _ _)
    · simp only [List.forall_mem_cons]
      exact ⟨.string _, Json.textsPlain _ _, .string _, nofun⟩
  have unusual : (Json.list [.record
      [("guard", .record [("preferred", .string "w"), ("x", .null), ("wrappers", .ofTexts ["w"]),
          ("kind", .string "wrapper")]),
        ("matcher", .record [("operations", .ofTexts ["f"]), ("x", .null)]), ("kind", .null),
        ("message", .string "m"), ("id", .string "r")]]).Plain 127 := by
    refine .list (List.forall_mem_singleton.mpr (.record ?_))
    simp only [List.forall_mem_cons]
    refine ⟨.record ?_, .record ?_, .null, .string _, .string _, nofun⟩
    · simp only [List.forall_mem_cons]
      exact ⟨.string _, .null, Json.textsPlain _ _, .string _, nofun⟩
    · simp only [List.forall_mem_cons]
      exact ⟨Json.textsPlain _ _, .null, nofun⟩
  have before := Json.ofWritten Layout.compact usual
  have after := Json.ofWritten Layout.pretty unusual
  have reads : listOfText (Layout.compact.write _) = .ok
      [⟨"r", "", "m", none, .warning, ⟨["f"], .any, .always⟩, .wrapper ["w"] "w"⟩] :=
    listAnswered.mpr (by rw [before]; exact ⟨rfl, rfl, rfl⟩)
  refine ⟨reads, declarationsSurvive.2.2 _ _ _ reads ?_ ⟨?_, ?_⟩⟩
  · rw [before, after]
    refine .items (.cons (.members (by decide) (List.reverse_perm _) ?_) .nil)
    refine .cons (Fields.likeNamed rfl) (.cons (Fields.likeNamed rfl) (.cons (Fields.likeNamed ?_)
      (.cons (Fields.likeNamed ?_) .nil)))
    · exact .members (by decide) (List.Perm.refl _) (.cons (Fields.likeNamed rfl) .nil)
    · refine ⟨rfl, fun name named f among => ?_, ?_⟩
      · cases named
        cases among
        exact .members (by decide) (List.reverse_perm _) (.cons (Fields.likeNamed rfl)
          (.cons (Fields.likeNamed rfl) .nil))
      · rfl
  · rw [after]
    exact Json.readableSound _ unusual.readable
  · rw [after]
    rfl

/- What cannot be added to a list that is accepted: anything beside the name in the object form of a
category, a number that cannot be stored in a record of several kinds, and a member whose key is half of a
pair of escapes. -/
theorem additionsRefused :
    listOfText ("[\x7b\"id\":\"\",\"message\":\"\",\"category\":\x7b\"error\":null\x7d," ++
      "\"matcher\":\x7b\"operations\":[]\x7d,\"guard\":\x7b\"kind\":\"condition\",\"predicates\":[]\x7d\x7d]").toList =
      .ok [⟨"", "", "", none, .error, ⟨[], .any, .always⟩, .condition []⟩] ∧
    listOfText ("[\x7b\"id\":\"\",\"message\":\"\",\"category\":\x7b\"error\":null,\"x\":0\x7d," ++
      "\"matcher\":\x7b\"operations\":[]\x7d,\"guard\":\x7b\"kind\":\"condition\",\"predicates\":[]\x7d\x7d]").toList =
      .error .malformed ∧
    listOfText ("[\x7b\"id\":\"\",\"message\":\"\",\"category\":\x7b\"error\":null\x7d," ++
      "\"matcher\":\x7b\"operations\":[]\x7d," ++
      "\"guard\":\x7b\"kind\":\"condition\",\"predicates\":[],\"x\":1e999\x7d\x7d]").toList = .error .malformed ∧
    listOfText ("[\x7b\"\\ud800\":0,\"id\":\"\",\"message\":\"\",\"category\":\x7b\"error\":null\x7d," ++
      "\"matcher\":\x7b\"operations\":[]\x7d,\"guard\":\x7b\"kind\":\"condition\",\"predicates\":[]\x7d\x7d]").toList =
      .error .malformed := by
  refine ⟨?_, ?_, ?_, ?_⟩ <;> decide +kernel

end Rule

end CallGuard
