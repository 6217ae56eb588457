import CallGuard.Proofs.Json.Accepted
import CallGuard.Rule.Json
import Mathlib.Data.List.Perm.Basic

/-! Changes of JSON values that shapes do not notice: members of an object in another order, members
that mean nothing, and such changes inside the members that mean something. -/
namespace CallGuard

namespace JsonShape

open Json (Sound Readable)

/- A change of values that a shape does not notice. -/
def Bears (shape : JsonShape) (change : Json → Json → Prop) : Prop :=
  ∀ j j', shape j = .ok () → change j j' → j'.Sound → shape j' = .ok ()

/- A change of values of a shape that does not alter what is read off them. -/
def Keeps {α : Type} (shape : JsonShape) (read? : Json → Option α) (change : Json → Json → Prop) : Prop :=
  ∀ j j', shape j = .ok () → change j j' → j'.Sound → read? j' = read? j

theorem bearsEq (shape : JsonShape) : shape.Bears Eq := by
  intro j j' fits same _
  rwa [← same]

theorem keepsEq {α : Type} (shape : JsonShape) (read? : Json → Option α) : shape.Keeps read? Eq := by
  intro j j' _ same _
  rw [← same]

/-! ### Lists -/

/- Lists whose items are changed one by one. -/
inductive Listed (change : Json → Json → Prop) : Json → Json → Prop
  | items {items items' : List Json} (each : List.Forall₂ change items items') :
      Listed change (.array items none) (.array items' none)

theorem listBears {item : JsonShape} {change : Json → Json → Prop} (bears : item.Bears change) :
    (list item).Bears (Listed change) := by
  intro j j' fits changed sound
  obtain @⟨items, items', each⟩ := changed
  rw [Json.soundArray] at sound
  rw [listPassed] at fits ⊢
  induction each with
  | nil => exact fun i among => (nomatch among)
  | cons one _ ih =>
    rw [List.forall_mem_cons] at fits sound ⊢
    exact ⟨bears _ _ fits.1 one sound.1, ih fits.2 sound.2⟩

theorem listKeeps {α : Type} {item : JsonShape} {read? : Json → Option α} {change : Json → Json → Prop}
    (keeps : item.Keeps read? change) :
    (list item).Keeps (fun j => do (← j.items?).mapM read?) (Listed change) := by
  intro j j' fits changed sound
  obtain @⟨items, items', each⟩ := changed
  rw [Json.soundArray] at sound
  rw [listPassed] at fits
  simp only [Json.items?, Option.bind_eq_bind, Option.bind_some]
  induction each with
  | nil => rfl
  | cons one _ ih =>
    rw [List.forall_mem_cons] at fits sound
    rw [List.mapM_cons, List.mapM_cons, keeps _ _ fits.1 one sound.1, ih fits.2 sound.2]

/-! ### Records -/

namespace Fields

variable {f : Fields} {change : String → Json → Json → Prop}

/-- Two members with one key, the second value being a change of the first. -/
structure Like (change : String → Json → Json → Prop) (m m' : Option String × Json) : Prop where
  key : m'.1 = m.1
  value : ∀ key ∈ m.1, change key m.2 m'.2

theorem likeNamed {key : String} {value value' : Json} (like : change key value value') :
    Like change (some key, value) (some key, value') :=
  ⟨rfl, fun _ named => Option.some.inj named ▸ like⟩

/-- The items of an array in the order of the fields, changed one by one. -/
def ItemsLike (change : String → Json → Json → Prop) : List String → List Json → List Json → Prop
  | key :: keys, item :: items, item' :: items' => change key item item' ∧ ItemsLike change keys items items'
  | _, items, items' => items' = items

/-- A record whose fields are changed one by one. In an object they may come in another order, and
members with other keys may come, go and change in any way, as long as their keys can be read. -/
inductive Rearranged (f : Fields) (change : String → Json → Json → Prop) : Json → Json → Prop
  | members {members members' order : List (Option String × Json)}
      (readable : ∀ m ∈ members', m.1.isSome = true) (reordered : order.Perm (f.known members'))
      (each : List.Forall₂ (Like change) (f.known members) order) :
      Rearranged f change (.object members none) (.object members' none)
  | items {items items' : List Json} (each : ItemsLike change f.keys items items') :
      Rearranged f change (.array items none) (.array items' none)

/- Every field that has to be there is a field. -/
def Closed (f : Fields) : Prop := f.required ⊆ f.keys

/- No shape of a field notices the change that is allowed for it. -/
def Bear (f : Fields) (change : String → Json → Json → Prop) : Prop :=
  ∀ field ∈ f.shapes, field.2.Bears (change field.1)

theorem knownAlike {members order : List (Option String × Json)}
    (each : List.Forall₂ (Like change) members order) : order.map (·.1) = members.map (·.1) := by
  induction each with
  | nil => rfl
  | cons one _ ih => rw [List.map_cons, List.map_cons, one.key, ih]

/- Among what was reordered and changed, each member is a change of one that was there. -/
theorem changeOf {members order : List (Option String × Json)}
    (each : List.Forall₂ (Like change) members order) {m' : Option String × Json} (among : m' ∈ order) :
    ∃ m ∈ members, Like change m m' := by
  induction each with
  | nil => cases among
  | @cons m m'' _ _ one _ ih =>
    rcases List.mem_cons.mp among with rfl | among
    · exact ⟨m, List.mem_cons_self, one⟩
    · obtain ⟨m, there, like⟩ := ih among
      exact ⟨m, List.mem_cons_of_mem _ there, like⟩

theorem membersBear {surplus : JsonFault} (closed : f.Closed) (others : f.others = true)
    (bear : f.Bear change) {members members' order : List (Option String × Json)}
    (readable : ∀ m ∈ members', m.1.isSome = true) (reordered : order.Perm (f.known members'))
    (each : List.Forall₂ (Like change) (f.known members) order)
    (fits : f.check surplus (.object members none) = .ok ()) (sound : ∀ m ∈ members', m.2.Sound) :
    f.check surplus (.object members' none) = .ok () := by
  obtain ⟨good, apart, there⟩ := objectPassed.mp fits
  have keys : (order.map (·.1)).Perm ((f.known members').map (·.1)) := reordered.map _
  rw [knownAlike each] at keys
  refine objectPassed.mpr ⟨fun m' among => ?_, keys.nodup apart, fun key needed => ?_⟩
  · obtain ⟨key?, value⟩ := m'
    obtain ⟨key, rfl⟩ := Option.isSome_iff_exists.mp (readable _ among)
    cases found : f.shapes.lookup key with
    | none => exact (fitsOther found).mpr ⟨others, sound _ among⟩
    | some shape =>
      have known : (some key, value) ∈ f.known members' :=
        List.mem_filter.mpr ⟨among, (knownNamed rfl).mpr ⟨shape, found⟩⟩
      obtain ⟨m, was, like⟩ := changeOf each (reordered.mem_iff.mpr known)
      obtain ⟨key?, before⟩ := m
      cases like.key
      have fit := (fitsKnown found).mp (good _ (List.mem_filter.mp was).1)
      exact (fitsKnown found).mpr (bear _ (lookupAmong found) _ _ fit (like.value key rfl) (sound _ among))
  · obtain ⟨m, was, named⟩ := List.mem_map.mp (there key needed)
    have known : m ∈ f.known members := by
      refine List.mem_filter.mpr ⟨was, ?_⟩
      rw [knows, named, Option.any_some, List.contains_iff_mem]
      exact closed needed
    have kept := keys.mem_iff.mp (List.mem_map_of_mem known)
    rw [named] at kept
    obtain ⟨m', among, named'⟩ := List.mem_map.mp kept
    exact List.mem_map.mpr ⟨m', (List.mem_filter.mp among).1, named'⟩

theorem itemsBear {shapes : List (String × JsonShape)}
    (bear : ∀ field ∈ shapes, field.2.Bears (change field.1)) {items items' : List Json}
    (like : ItemsLike change (shapes.map (·.1)) items items') (fits : checkItems shapes items = .ok ())
    (sound : ∀ i ∈ items', i.Sound) : checkItems shapes items' = .ok () ∧ items'.length = items.length := by
  induction shapes generalizing items items' with
  | nil => exact ⟨rfl, congrArg List.length like⟩
  | cons field shapes ih =>
    rw [List.forall_mem_cons] at bear
    cases items with
    | nil =>
      cases like
      exact ⟨rfl, rfl⟩
    | cons item items =>
      cases items' with
      | nil => cases like
      | cons item' items' =>
        rw [List.forall_mem_cons] at sound
        obtain ⟨first, rest⟩ := Except.thenPassed.mp fits
        obtain ⟨fit, count⟩ := ih bear.2 like.2 rest sound.2
        exact ⟨Except.thenPassed.mpr ⟨bear.1 _ _ first like.1 sound.1, fit⟩, congrArg (· + 1) count⟩

theorem recordBears {surplus : JsonFault} (closed : f.Closed) (others : f.others = true)
    (bear : f.Bear change) : Bears (f.check surplus) (f.Rearranged change) := by
  intro j j' fits rearranged sound
  cases rearranged with
  | members readable reordered each =>
    exact membersBear closed others bear readable reordered each fits (Json.soundObject.mp sound)
  | items like =>
    obtain ⟨good, few, there⟩ := arrayPassed.mp fits
    obtain ⟨fit, count⟩ := itemsBear bear like good (Json.soundArray.mp sound)
    exact arrayPassed.mpr ⟨fit, count ▸ few, count ▸ there⟩

/-! #### Reading fields -/

theorem lookupKnown {key : String} (field : key ∈ f.keys) (members : List (Option String × Json)) :
    (f.known members).lookup (some key) = members.lookup (some key) := by
  induction members with
  | nil => rfl
  | cons m members ih =>
    obtain ⟨key?, value⟩ := m
    by_cases same : some key = key?
    · subst same
      have own : f.known ((some key, value) :: members) = (some key, value) :: f.known members :=
        List.filter_cons_of_pos (by rwa [knows, Option.any_some, List.contains_iff_mem])
      rw [own, List.lookup_cons_self, List.lookup_cons_self]
    · have passed : ∀ rest : List (Option String × Json), ((key?, value) :: rest).lookup (some key) =
          rest.lookup (some key) := fun rest => by
        rw [List.lookup_cons, beq_false_of_ne same]
      rw [passed, ← ih, known, List.filter_cons]
      split
      · rw [passed, known]
      · rw [known]

theorem lookupReordered {members members' : List (Option String × Json)} (reordered : members.Perm members')
    (apart : (members.map (·.1)).Nodup) (key : Option String) : members'.lookup key = members.lookup key := by
  induction reordered with
  | nil => rfl
  | cons m _ ih =>
    rw [List.lookup_cons, List.lookup_cons, ih (List.nodup_cons.mp apart).2]
  | swap m m' rest =>
    have other : m.1 ≠ m'.1 := fun same =>
      (List.nodup_cons.mp apart).1 (List.mem_map.mpr ⟨m, List.mem_cons_self, same⟩)
    rw [List.lookup_cons, List.lookup_cons, List.lookup_cons, List.lookup_cons]
    cases first : key == m.1 with
    | false => rfl
    | true =>
      have second : (key == m'.1) = false := beq_false_of_ne fun same =>
        other ((beq_iff_eq.mp first).symm.trans same)
      rw [second]
  | trans before _ ih ih' => rw [ih' ((before.map _).nodup_iff.mp apart), ih apart]

variable {α : Type} {read? : Json → Option α} {key : String} {shape : JsonShape}

theorem lookupLike (keeps : shape.Keeps read? (change key)) {members order : List (Option String × Json)}
    (each : List.Forall₂ (Like change) members order)
    (fits : ∀ m ∈ members, m.1 = some key → shape m.2 = .ok ()) (sound : ∀ m ∈ order, m.2.Sound) :
    (order.lookup (some key)).map read? = (members.lookup (some key)).map read? := by
  induction each with
  | nil => rfl
  | @cons m m' _ _ one _ ih =>
    rw [List.forall_mem_cons] at fits sound
    rw [List.lookup_cons, List.lookup_cons, one.key]
    cases same : some key == m.1 with
    | false => exact ih fits.2 sound.2
    | true =>
      have named : m.1 = some key := (beq_iff_eq.mp same).symm
      exact congrArg some (keeps _ _ (fits.1 named) (one.value key named) sound.1)

theorem itemsKeep (keeps : shape.Keeps read? (change key)) {shapes : List (String × JsonShape)}
    (found : shapes.lookup key = some shape) {items items' : List Json}
    (like : ItemsLike change (shapes.map (·.1)) items items') (fits : checkItems shapes items = .ok ())
    (sound : ∀ i ∈ items', i.Sound) :
    (((shapes.map (·.1)).zip items').lookup key).map read? =
      (((shapes.map (·.1)).zip items).lookup key).map read? := by
  induction shapes generalizing items items' with
  | nil => cases found
  | cons field shapes ih =>
    obtain ⟨own, _⟩ := field
    cases items with
    | nil => cases like; rfl
    | cons item items =>
      cases items' with
      | nil => cases like
      | cons item' items' =>
        rw [List.forall_mem_cons] at sound
        obtain ⟨first, rest⟩ := Except.thenPassed.mp fits
        simp only [List.map_cons, List.zip_cons_cons, List.lookup_cons] at found ⊢
        cases same : key == own with
        | false =>
          rw [same] at found
          exact ih found like.2 rest sound.2
        | true =>
          rw [same] at found
          cases found
          cases beq_iff_eq.mp same
          exact congrArg some (keeps _ _ first like.1 sound.1)

/- A field of a rearranged record reads as before. -/
theorem fieldKept {surplus : JsonFault} {j j' : Json} (rearranged : f.Rearranged change j j')
    (fits : f.check surplus j = .ok ()) (sound : j'.Sound) (found : f.shapes.lookup key = some shape)
    (keeps : shape.Keeps read? (change key)) :
    (j'.field? f.keys key).map read? = (j.field? f.keys key).map read? := by
  cases rearranged with
  | items like => exact itemsKeep keeps found like (arrayPassed.mp fits).1 (Json.soundArray.mp sound)
  | @members members members' order readable reordered each =>
    obtain ⟨good, apart, _⟩ := objectPassed.mp fits
    have field : key ∈ f.keys := List.mem_map.mpr ⟨_, lookupAmong found, rfl⟩
    have known : ∀ m ∈ f.known members, m.1 = some key → shape m.2 = .ok () := by
      intro ⟨key?, value⟩ among named
      cases named
      exact (fitsKnown found).mp (good _ (List.mem_filter.mp among).1)
    have after : ∀ m ∈ order, m.2.Sound := fun m among =>
      Json.soundObject.mp sound m (List.mem_filter.mp (reordered.mem_iff.mp among)).1
    rw [← knownAlike each] at apart
    calc (members'.lookup (some key)).map read?
        = ((f.known members').lookup (some key)).map read? := by rw [lookupKnown field]
      _ = (order.lookup (some key)).map read? := by rw [lookupReordered reordered apart]
      _ = ((f.known members).lookup (some key)).map read? := lookupLike keeps each known after
      _ = (members.lookup (some key)).map read? := by rw [lookupKnown field]

section
variable {surplus : JsonFault} {j j' : Json} (key)

theorem fieldBound (rearranged : f.Rearranged change j j') (fits : f.check surplus j = .ok ())
    (sound : j'.Sound) (found : f.shapes.lookup key = some shape) (keeps : shape.Keeps read? (change key)) :
    (j'.field? f.keys key).bind read? = (j.field? f.keys key).bind read? := by
  have joined : ∀ value? : Option Json, value?.bind read? = (value?.map read?).bind id := fun value? => by
    cases value? <;> rfl
  rw [joined, joined, fieldKept rearranged fits sound found keeps]

theorem fieldDefault (rearranged : f.Rearranged change j j') (fits : f.check surplus j = .ok ())
    (sound : j'.Sound) (found : f.shapes.lookup key = some shape) (keeps : shape.Keeps read? (change key))
    (default : α) : j'.fieldOr f.keys key read? default = j.fieldOr f.keys key read? default := by
  have joined : ∀ value : Json, value.fieldOr f.keys key read? default =
      ((value.field? f.keys key).map read?).getD (some default) := fun value => by
    rw [Json.fieldOr]
    cases value.field? f.keys key <;> rfl
  rw [joined, joined, fieldKept rearranged fits sound found keeps]

end

end Fields

/-! ### Records of several kinds -/

namespace Kinds

variable {kinds : Kinds} {change : String → Json → Json → Prop}

/-- A record of some kind whose fields are changed one by one, with what tells its kind in any place.
All of it has to be stored before the kind is known, so all of it has to be readable. -/
structure Rearranged (kinds : Kinds) (change : String → Json → Json → Prop) (j j' : Json) : Prop where
  tags : j'.tags = j.tags
  fields : ∀ name ∈ j.kind?, ∀ f ∈ kinds.lookup name, f.Rearranged change j.content j'.content
  readable : j'.Readable

/- What is known of two records of one kind of which one is a rearrangement of the other. -/
structure Pair (kinds : Kinds) (change : String → Json → Json → Prop) (j j' : Json) (name : String) (f : Fields) :
    Prop where
  before : j.tags = [.string name]
  after : j'.tags = [.string name]
  among : kinds.lookup name = some f
  fits : storedRecord f j.content = .ok ()
  rearranged : f.Rearranged change j.content j'.content
  sound : j'.content.Sound

theorem Rearranged.pair {j j' : Json} (rearranged : kinds.Rearranged change j j')
    (fits : tagged kinds j = .ok ()) : ∃ name f, Pair kinds change j j' name f := by
  obtain ⟨_, name, f, own, among, fits⟩ := taggedPassed.mp fits
  exact ⟨name, f, own, rearranged.tags.trans own, among, fits,
    rearranged.fields name (Json.kindTagged own) f among,
    Json.contentSound (Json.readableSound _ rearranged.readable)⟩

theorem taggedBears (each : ∀ kind ∈ kinds, kind.2.Closed ∧ kind.2.others = true ∧ kind.2.Bear change) :
    (tagged kinds).Bears (kinds.Rearranged change) := by
  intro j j' fits rearranged _
  obtain ⟨name, f, pair⟩ := rearranged.pair fits
  obtain ⟨before, after, split, _⟩ := List.lookup_eq_some_iff.mp pair.among
  obtain ⟨closed, others, bear⟩ := each (name, f) (by simp [split])
  exact taggedPassed.mpr ⟨rearranged.readable, name, f, pair.after, pair.among,
    Fields.recordBears closed others bear _ _ pair.fits pair.rearranged pair.sound⟩

end Kinds

end JsonShape

end CallGuard
