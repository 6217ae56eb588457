import CallGuard.Breakdown
import CallGuard.Json.Shape

/-! What checks of JSON values accept, said without the order of the checking. An object is accepted when
each of its members is, no field comes twice and none is missing; a record of several kinds is accepted
when all of it can be read, one value alone tells its kind, and the rest is a record of that kind. -/
namespace CallGuard

theorem Except.thenPassed {β : Type} {x : Except JsonFault Unit} {y : Except JsonFault β} {b : β} :
    (do x; y) = .ok b ↔ x = .ok () ∧ y = .ok b :=
  ⟨fun gives => let ⟨(), first, next⟩ := bindAnswered.mp gives; ⟨first, next⟩,
    fun ⟨first, next⟩ => bindAnswered.mpr ⟨(), first, next⟩⟩

theorem JsonFault.unlessPassed {fault? : Option JsonFault} :
    JsonFault.unless fault? = .ok () ↔ fault? = none := by
  cases fault? with
  | none => exact ⟨fun _ => rfl, fun _ => rfl⟩
  | some fault => exact ⟨fun gives => (nomatch gives), fun gives => (nomatch gives)⟩

namespace Json

/- A value of sound form has no holes. -/
abbrev Sound (j : Json) : Prop := j.formFault? false = none

/- A value of sound form of which every part can be read. -/
abbrev Readable (j : Json) : Prop := j.formFault? true = none

theorem itemsWhole {reading : Bool} {items : List Json} :
    itemsFault? reading items = none ↔ ∀ item ∈ items, item.formFault? reading = none := by
  induction items with
  | nil => simp [itemsFault?]
  | cons item items ih => simp [itemsFault?, ih]

theorem soundMembers {members : List (Option String × Json)} :
    membersFault? false members = none ↔ ∀ m ∈ members, m.2.Sound := by
  induction members with
  | nil => simp [membersFault?]
  | cons m members ih => simp [membersFault?, ih]

theorem readableKeyed {members : List (String × Json)} (readable : ∀ m ∈ members, m.2.Readable) :
    membersFault? true (members.map fun (key, value) => (some key, value)) = none := by
  induction members with
  | nil => simp [membersFault?]
  | cons m members ih =>
    rw [List.forall_mem_cons] at readable
    simpa [membersFault?, readable.1] using ih readable.2

theorem soundArray {items : List Json} : (Json.array items none).Sound ↔ ∀ item ∈ items, item.Sound := by
  simp only [Sound, formFault?, Option.map_none, Option.or_none, itemsWhole]

theorem soundObject {members : List (Option String × Json)} :
    (Json.object members none).Sound ↔ ∀ m ∈ members, m.2.Sound := by
  simp only [Sound, formFault?, Option.map_none, Option.or_none, soundMembers]

mutual

theorem readableSound (j : Json) (readable : j.Readable) : j.Sound := by
  cases j with
  | array items stop? =>
    simp only [Readable, Sound, formFault?, Option.or_eq_none_iff] at readable ⊢
    exact ⟨readableItems items readable.1, readable.2⟩
  | object members stop? =>
    simp only [Readable, Sound, formFault?, Option.or_eq_none_iff] at readable ⊢
    exact ⟨readableMembers members readable.1, readable.2⟩
  | unreadable form => simp [Readable, formFault?] at readable
  | broken stop => simp [Readable, formFault?] at readable
  | _ => simp only [Sound, formFault?]

theorem readableItems (items : List Json) (readable : itemsFault? true items = none) :
    itemsFault? false items = none := by
  cases items with
  | nil => simp only [itemsFault?]
  | cons item items =>
    simp only [itemsFault?, Option.or_eq_none_iff] at readable ⊢
    exact ⟨readableSound item readable.1, readableItems items readable.2⟩

theorem readableMembers (members : List (Option String × Json)) (readable : membersFault? true members = none) :
    membersFault? false members = none := by
  cases members with
  | nil => simp only [membersFault?]
  | cons m members =>
    simp only [membersFault?] at readable ⊢
    split at readable
    · cases readable
    · rw [Option.or_eq_none_iff] at readable
      simp [readableSound m.2 readable.1, readableMembers members readable.2]

end

/-- The values that may tell the kind of a record: those of the members `kind`, or the first item of an
array. -/
def tags : Json → List Json
  | .object members _ => (members.filter (·.1 == some "kind")).map (·.2)
  | .array items _ => items.take 1
  | _ => []

theorem lookupTag (members : List (Option String × Json)) (key : Option String) :
    members.lookup key = ((members.filter (·.1 == key)).map (·.2)).head? := by
  induction members with
  | nil => rfl
  | cons m members ih =>
    obtain ⟨own, value⟩ := m
    by_cases same : own = key
    · subst same
      simp
    · have other : (own == key) = false := beq_false_of_ne same
      rw [List.lookup_cons, beq_false_of_ne (Ne.symm same), List.filter_cons_of_neg (by simp [other])]
      exact ih

theorem kindTagged {j : Json} {name : String} (tagged : j.tags = [.string name]) : j.kind? = some name := by
  cases j with
  | object members stop? =>
    rw [tags] at tagged
    rw [kind?, lookupTag, tagged]
    rfl
  | array items stop? =>
    cases items with
    | nil => cases tagged
    | cons item items =>
      cases tagged
      rfl
  | _ => cases tagged

theorem contentSound {j : Json} (sound : j.Sound) : j.content.Sound := by
  cases j with
  | object members stop? =>
    simp only [Sound, content, formFault?, Option.or_eq_none_iff, soundMembers] at sound ⊢
    exact ⟨fun m among => sound.1 m (List.mem_filter.mp among).1, sound.2⟩
  | array items stop? =>
    simp only [Sound, content, formFault?, Option.or_eq_none_iff, itemsWhole] at sound ⊢
    exact ⟨fun i among => sound.1 i (List.mem_of_mem_tail among), sound.2⟩
  | _ => exact sound

end Json

namespace JsonShape

open Json (Sound Readable)

theorem eachPassed {item : JsonShape} {items : List Json} :
    items.forM item = .ok () ↔ ∀ i ∈ items, item i = .ok () := by
  induction items with
  | nil => exact ⟨fun _ i among => (nomatch among), fun _ => rfl⟩
  | cons i items ih =>
    rw [List.forall_mem_cons, ← ih]
    exact Except.thenPassed

theorem listPassed {item : JsonShape} {items : List Json} :
    list item (.array items none) = .ok () ↔ ∀ i ∈ items, item i = .ok () := by
  rw [← eachPassed]
  exact Except.thenPassed.trans (and_iff_left rfl)

/-! ### Records -/

namespace Fields

variable {f : Fields}

/-- A member with the key of a field. -/
def knows (f : Fields) (m : Option String × Json) : Bool := m.1.any f.keys.contains

def known (f : Fields) (members : List (Option String × Json)) : List (Option String × Json) :=
  members.filter f.knows

/- What a member has to be for a record to be accepted. -/
structure Fits (f : Fields) (m : Option String × Json) : Prop where
  readable : m.1.isSome = true
  known : ∀ key ∈ m.1, ∀ shape ∈ f.shapes.lookup key, shape m.2 = .ok ()
  other : ∀ key ∈ m.1, f.shapes.lookup key = none → f.others = true ∧ m.2.Sound

theorem lookupAmong {key : String} {shape : JsonShape} (found : f.shapes.lookup key = some shape) :
    (key, shape) ∈ f.shapes := by
  obtain ⟨before, after, split, _⟩ := List.lookup_eq_some_iff.mp found
  simp [split]

theorem knownNamed {m : Option String × Json} {key : String} (named : m.1 = some key) :
    f.knows m = true ↔ ∃ shape, f.shapes.lookup key = some shape := by
  rw [knows, named, Option.any_some, List.contains_iff_mem, keys, List.mem_map]
  cases found : f.shapes.lookup key with
  | none =>
    rw [List.lookup_eq_none_iff] at found
    exact ⟨fun ⟨field, among, same⟩ => by simpa [same] using found field among, fun ⟨_, gives⟩ => (nomatch gives)⟩
  | some shape =>
    exact ⟨fun _ => ⟨shape, rfl⟩, fun _ => ⟨(key, shape), lookupAmong found, rfl⟩⟩

theorem fitsKnown {key : String} {value : Json} {shape : JsonShape} (found : f.shapes.lookup key = some shape) :
    f.Fits (some key, value) ↔ shape value = .ok () := by
  refine ⟨fun fits => fits.known key rfl shape found, fun fits => ⟨rfl, ?_, ?_⟩⟩
  · intro _ named _ among
    cases Option.some.inj named
    cases found.symm.trans among
    exact fits
  · intro _ named missing
    cases Option.some.inj named
    cases found.symm.trans missing

theorem fitsOther {key : String} {value : Json} (missing : f.shapes.lookup key = none) :
    f.Fits (some key, value) ↔ f.others = true ∧ value.Sound := by
  refine ⟨fun fits => fits.other key rfl missing, fun fits => ⟨rfl, ?_, fun _ _ _ => fits⟩⟩
  intro _ named _ among
  cases Option.some.inj named
  cases missing.symm.trans among

/- Checking members from the first to the last is checking each by itself, and that no field comes
twice. -/
theorem membersPassed {members : List (Option String × Json)} {seen : List String} :
    f.checkMembers seen members = .ok () ↔
      (∀ m ∈ members, f.Fits m) ∧ ((f.known members).map (·.1)).Nodup ∧
        ∀ key ∈ seen, some key ∉ (f.known members).map (·.1) := by
  induction members generalizing seen with
  | nil => simp [checkMembers, known]
  | cons m members ih =>
    obtain ⟨key?, value⟩ := m
    rw [List.forall_mem_cons]
    cases key? with
    | none => exact ⟨fun gives => (nomatch gives), fun fits => (nomatch fits.1.1.readable)⟩
    | some key =>
      cases found : f.shapes.lookup key with
      | some shape =>
        have own : f.known ((some key, value) :: members) = (some key, value) :: f.known members :=
          List.filter_cons_of_pos ((knownNamed rfl).mpr ⟨shape, found⟩)
        simp only [checkMembers, found, own, List.map_cons, List.nodup_cons, List.mem_cons, fitsKnown found]
        by_cases twice : key ∈ seen
        · rw [if_pos (List.contains_iff_mem.mpr twice)]
          exact ⟨fun gives => (nomatch gives), fun fits => absurd (.inl rfl) (fits.2.2 key twice)⟩
        · rw [if_neg (fun once => twice (List.contains_iff_mem.mp once)), Except.thenPassed]
          simp only [ih, List.mem_cons]
          constructor
          · intro ⟨first, each, apart, before⟩
            refine ⟨⟨first, each⟩, ⟨before key (.inl rfl), apart⟩, fun k among again => ?_⟩
            rcases again with same | again
            · cases same
              exact twice among
            · exact before k (.inr among) again
          · intro ⟨⟨first, each⟩, ⟨alone, apart⟩, before⟩
            refine ⟨first, each, apart, fun k among again => ?_⟩
            rcases among with rfl | among
            · exact alone again
            · exact before k among (.inr again)
      | none =>
        have other : f.known ((some key, value) :: members) = f.known members :=
          List.filter_cons_of_neg fun knows => by
            obtain ⟨shape, among⟩ := (knownNamed rfl).mp knows
            cases found.symm.trans among
        simp only [checkMembers, found, other, fitsOther found]
        cases f.others with
        | false => exact ⟨fun gives => (nomatch gives), fun fits => (nomatch fits.1.1.1)⟩
        | true =>
          rw [if_pos rfl, Except.thenPassed, JsonFault.unlessPassed, ih]
          exact ⟨fun ⟨sound, each, rest⟩ => ⟨⟨⟨rfl, sound⟩, each⟩, rest⟩,
            fun ⟨⟨⟨_, sound⟩, each⟩, rest⟩ => ⟨sound, each, rest⟩⟩

theorem objectPassed {surplus : JsonFault} {members : List (Option String × Json)} :
    f.check surplus (.object members none) = .ok () ↔
      (∀ m ∈ members, f.Fits m) ∧ ((f.known members).map (·.1)).Nodup ∧
        ∀ key ∈ f.required, some key ∈ members.map (·.1) := by
  have there : f.checkRequired (members.filterMap (·.1)) = .ok () ↔
      ∀ key ∈ f.required, some key ∈ members.map (·.1) := by
    have same : f.required.all (members.filterMap (·.1)).contains = true ↔
        ∀ key ∈ f.required, some key ∈ members.map (·.1) := by
      simp [List.all_eq_true, List.mem_filterMap]
    rw [← same, checkRequired]
    split
    · exact ⟨fun _ => ‹_›, fun _ => rfl⟩
    · exact ⟨fun gives => (nomatch gives), fun all => absurd all ‹_›⟩
  simp only [check, Except.thenPassed, membersPassed, Option.map_none, JsonFault.unlessPassed, there]
  simp [and_assoc]

theorem arrayPassed {surplus : JsonFault} {items : List Json} :
    f.check surplus (.array items none) = .ok () ↔
      checkItems f.shapes items = .ok () ∧ items.length ≤ f.shapes.length ∧
        f.checkRequired (f.keys.take items.length) = .ok () := by
  rw [check, Except.thenPassed]
  refine and_congr_right fun _ => ?_
  split
  · exact ⟨fun gives => (nomatch gives), fun few => absurd few.1 (Nat.not_le.mpr ‹_›)⟩
  · exact Except.thenPassed.trans ⟨fun there => ⟨Nat.not_lt.mp ‹_›, there.2⟩, fun there => ⟨rfl, there.2⟩⟩

/- A record of fields alone, each of its shape and none twice. -/
theorem recordFits {surplus : JsonFault} {members : List (String × Json)}
    (each : ∀ m ∈ members, ∃ shape, f.shapes.lookup m.1 = some shape ∧ shape m.2 = .ok ())
    (apart : (members.map (·.1)).Nodup) (there : f.required ⊆ members.map (·.1)) :
    f.check surplus (.record members) = .ok () := by
  have keys : (members.map fun (key, value) => (some key, value)).map (·.1) = (members.map (·.1)).map some := by
    rw [List.map_map, List.map_map]
    rfl
  have known : f.known (members.map fun (key, value) => (some key, value)) =
      members.map fun (key, value) => (some key, value) := by
    refine List.filter_eq_self.mpr fun m among => ?_
    obtain ⟨own, there, rfl⟩ := List.mem_map.mp among
    obtain ⟨shape, found, _⟩ := each own there
    exact (knownNamed rfl).mpr ⟨shape, found⟩
  refine objectPassed.mpr ⟨fun m among => ?_, ?_, fun key needed => ?_⟩
  · obtain ⟨own, there, rfl⟩ := List.mem_map.mp among
    obtain ⟨shape, found, fits⟩ := each own there
    exact (fitsKnown found).mpr fits
  · rw [known, keys]
    exact List.pairwise_map.mpr (apart.imp fun different same => different (Option.some.inj same))
  · rw [keys]
    exact List.mem_map_of_mem (there needed)

end Fields

/-! ### Records of several kinds -/

namespace Kinds

variable {kinds : Kinds}

theorem kindPassed {value : Json} {f : Fields} :
    kinds.fieldsOf value = .ok f ↔ ∃ name, value = .string name ∧ kinds.lookup name = some f := by
  cases value with
  | string name =>
    cases found : kinds.lookup name with
    | none => simp [fieldsOf, Except.thenPassed, text, scalar, Json.text?, found]
    | some g =>
      have chosen : kinds.fieldsOf (.string name) = .ok g := by
        have read : (Json.string name).text?.bind (fun name => kinds.lookup name) = some g := found
        rw [fieldsOf, read]
        rfl
      simp [chosen, found]
  | _ => simp [fieldsOf, Except.thenPassed, text, scalar, Json.text?]

theorem foundPassed {f : Fields} {found? : Option Fields} {members : List (Option String × Json)} :
    kinds.readMembers (some f) members = .ok found? ↔
      Json.membersFault? true members = none ∧ members.filter (·.1 == some "kind") = [] ∧ found? = some f := by
  induction members with
  | nil => simp [readMembers, Json.membersFault?, eq_comm]
  | cons m members ih =>
    obtain ⟨key?, value⟩ := m
    cases key? with
    | none => simp [readMembers, Json.membersFault?]
    | some key =>
      by_cases tag : key = "kind"
      · subst tag
        simp [readMembers]
      · have other : (some key == some "kind") = false := beq_false_of_ne (fun same => tag (Option.some.inj same))
        rw [readMembers, if_neg (by simpa using tag), Except.thenPassed, JsonFault.unlessPassed, ih]
        simp [Json.membersFault?, other, and_assoc]

theorem membersTagged {f : Fields} {members : List (Option String × Json)} :
    kinds.readMembers none members = .ok (some f) ↔
      Json.membersFault? true members = none ∧
        ∃ name, (members.filter (·.1 == some "kind")).map (·.2) = [.string name] ∧
          kinds.lookup name = some f := by
  induction members with
  | nil => simp [readMembers]
  | cons m members ih =>
    obtain ⟨key?, value⟩ := m
    cases key? with
    | none => simp [readMembers, Json.membersFault?]
    | some key =>
      by_cases tag : key = "kind"
      · subst tag
        have chosen : kinds.readMembers none ((some "kind", value) :: members) =
          (do kinds.readMembers (some (← kinds.fieldsOf value)) members) := rfl
        have first : ((some "kind", value) :: members).filter (·.1 == some "kind") =
          (some "kind", value) :: members.filter (·.1 == some "kind") := List.filter_cons_of_pos rfl
        rw [chosen, bindAnswered, first, List.map_cons]
        simp only [foundPassed, kindPassed]
        constructor
        · intro ⟨g, ⟨name, own, among⟩, readable, alone, same⟩
          subst own
          exact ⟨by simpa [Json.membersFault?, Json.formFault?] using readable, name, by rw [alone]; rfl,
            among.trans same.symm⟩
        · intro ⟨readable, name, own, among⟩
          obtain ⟨rfl, alone⟩ := List.cons.inj own
          exact ⟨f, ⟨name, rfl, among⟩, by simpa [Json.membersFault?, Json.formFault?] using readable,
            List.map_eq_nil_iff.mp alone, rfl⟩
      · have other : (some key == some "kind") = false := beq_false_of_ne (fun same => tag (Option.some.inj same))
        rw [readMembers, if_neg (by simpa using tag), Except.thenPassed, JsonFault.unlessPassed, ih]
        simp [Json.membersFault?, other, and_assoc]

theorem itemsTagged {f : Fields} {items : List Json} :
    kinds.readItems items = .ok (some f) ↔
      Json.itemsFault? true items = none ∧ ∃ name, items.take 1 = [.string name] ∧ kinds.lookup name = some f := by
  cases items with
  | nil => simp [readItems]
  | cons value items =>
    have chosen : kinds.readItems (value :: items) = (do
      let g ← kinds.fieldsOf value
      JsonFault.unless (Json.itemsFault? true items)
      return some g) := rfl
    rw [chosen, bindAnswered]
    simp only [Except.thenPassed, JsonFault.unlessPassed, kindPassed, List.take_succ_cons, List.take_zero]
    constructor
    · rintro ⟨g, ⟨name, own, among⟩, readable, same⟩
      subst own
      cases same
      exact ⟨by simpa [Json.itemsFault?, Json.formFault?] using readable, name, rfl, among⟩
    · rintro ⟨readable, name, own, among⟩
      obtain ⟨rfl, _⟩ := List.cons.inj own
      exact ⟨f, ⟨name, rfl, among⟩, by simpa [Json.itemsFault?, Json.formFault?] using readable, rfl⟩

/- What was found in a record without holes of its own. -/
theorem foundHere {found : Except JsonFault (Option Fields)} {stop? : Option JsonStop} {f : Fields} :
    (do
      let found? ← found
      JsonFault.unless (stop?.map JsonStop.fault)
      match found? with
      | some f => return f
      | none => throw JsonFault.wrongShape) = .ok f ↔ found = .ok (some f) ∧ stop?.map JsonStop.fault = none := by
  rw [bindAnswered]
  simp only [Except.thenPassed, JsonFault.unlessPassed]
  constructor
  · intro ⟨found?, gives, whole, last⟩
    cases found? with
    | none => cases last
    | some g =>
      cases last
      exact ⟨gives, whole⟩
  · exact fun ⟨gives, whole⟩ => ⟨some f, gives, whole, rfl⟩

/- A record is of some kind when all of it can be read and one value alone tells that kind. -/
theorem readPassed {j : Json} {f : Fields} :
    kinds.read j = .ok f ↔ j.Readable ∧ ∃ name, j.tags = [.string name] ∧ kinds.lookup name = some f := by
  cases j with
  | object members stop? =>
    refine (@foundHere (kinds.readMembers none members) stop? f).trans ?_
    rw [membersTagged, Readable, Json.formFault?, Option.or_eq_none_iff, and_right_comm]
    rfl
  | array items stop? =>
    refine (@foundHere (kinds.readItems items) stop? f).trans ?_
    rw [itemsTagged, Readable, Json.formFault?, Option.or_eq_none_iff, and_right_comm]
    rfl
  | _ => exact ⟨fun gives => (nomatch gives), fun ⟨_, _, untagged, _⟩ => (nomatch untagged)⟩

theorem taggedPassed {j : Json} : tagged kinds j = .ok () ↔
    j.Readable ∧ ∃ name f, j.tags = [.string name] ∧ kinds.lookup name = some f ∧
      storedRecord f j.content = .ok () := by
  rw [tagged, bindAnswered]
  simp only [readPassed]
  constructor
  · exact fun ⟨f, ⟨readable, name, own, among⟩, fits⟩ => ⟨readable, name, f, own, among, fits⟩
  · exact fun ⟨readable, name, f, own, among, fits⟩ => ⟨f, ⟨readable, name, own, among⟩, fits⟩

end Kinds

end JsonShape

end CallGuard
