import CallGuard.Analysis.DeclaredType
import CallGuard.Proofs.Parser.Placed
import CallGuard.Proofs.Phrase.Program
import CallGuard.Proofs.Tree.Innermost

/-! Which declaration gives a name its type. Of the scopes around the name the innermost one decides
in which a declaration of the name states a type, and the last such declaration there. This is lexical
scoping as long as the declaration that scoping selects states a type; one that states none hides
nothing, and a declaration before it or further out is taken in its place. -/
namespace CallGuard

namespace Tree

/- Node `i` is a variable or a parameter of a name, and states a type or none. -/
inductive Declares (t : Tree) (name : String) (i : NodeId) : Option String → Prop where
  | declarator {d : Declaration} (held : t.payloadAt? i = some (.declarator d))
      (named : t.identifier? d.name = some name) : Declares t name i (t.statedType? d.type d.init)
  | parameter {p : Parameter} (held : t.payloadAt? i = some (.parameter p))
      (named : t.identifier? p.name = some name) : Declares t name i (t.statedType? p.type p.init)

/- The declared name can be seen in the scope around the declaration. -/
structure Binds (t : Tree) (name : String) (scope i : NodeId) (type? : Option String) : Prop where
  declares : t.Declares name i type?
  within : t.Innermost (t.kindIs NodeKind.isScope) i scope

/- Among the scopes around `use`, the innermost one with a good declaration of the name, and the last
good one in it. -/
structure Selects (t : Tree) (good : Option String → Prop) (name : String) (use scope i : NodeId)
    (type? : Option String) : Prop where
  around : t.Under scope use
  apart : scope ≠ use
  binds : t.Binds name scope i type?
  fine : good type?
  last : ∀ k other, t.Binds name scope k other → good other → k ≤ i
  nearest : ∀ s k other, t.Under s use → s ≠ use → t.Binds name s k other → good other →
    t.Under s scope

/- The declaration that scoping selects, whether or not it states a type. -/
def Resolves (t : Tree) : (name : String) → (use scope i : NodeId) → Option String → Prop :=
  t.Selects fun _ => True

/- The declaration that is selected among those that state a type. -/
def Types (t : Tree) (name : String) (use scope i : NodeId) (type : String) : Prop :=
  t.Selects (·.isSome = true) name use scope i (some type)

variable {t : Tree} {name : String} {i k scope inner use : NodeId} {type : String}
  {type? other : Option String} {good : Option String → Prop}

theorem declaresInside (declares : t.Declares name i type?) : i < t.size := by
  cases declares with
  | declarator held _ | parameter held _ => exact heldInside held

theorem declaresOne (one : t.Declares name i type?) (two : t.Declares name i other) :
    type? = other := by
  cases one with
  | declarator held _ | parameter held _ =>
    cases two with
    | declarator held' _ | parameter held' _ =>
      cases held.symm.trans held'
      try rfl

theorem selectsOne (linked : t.Linked) (one : t.Selects good name use scope i type?)
    (two : t.Selects good name use inner k other) : scope = inner ∧ i = k ∧ type? = other := by
  have same : scope = inner := Nat.le_antisymm
    (underLe linked (one.nearest _ _ _ two.around two.apart two.binds two.fine))
    (underLe linked (two.nearest _ _ _ one.around one.apart one.binds one.fine))
  subst same
  have chosen : i = k :=
    Nat.le_antisymm (two.last _ _ one.binds one.fine) (one.last _ _ two.binds two.fine)
  subst chosen
  exact ⟨rfl, rfl, declaresOne one.binds.declares two.binds.declares⟩

/- What scoping selects is taken when it states a type. -/
theorem resolvesTypes (resolves : t.Resolves name use scope i (some type)) :
    t.Types name use scope i type :=
  ⟨resolves.around, resolves.apart, resolves.binds, rfl,
    fun k other binds _ => resolves.last k other binds trivial,
    fun s k other around apart binds _ => resolves.nearest s k other around apart binds trivial⟩

/- What is taken where scoping selects a declaration without a type comes before it in its scope, or
stands in a scope further out. -/
theorem resolvesOther (resolves : t.Resolves name use scope i none)
    (types : t.Types name use inner k type) : t.Under inner scope ∧ (inner = scope → k < i) := by
  refine ⟨resolves.nearest _ _ _ types.around types.apart types.binds trivial, ?_⟩
  rintro rfl
  refine Nat.lt_of_le_of_ne (resolves.last _ _ types.binds trivial) ?_
  rintro rfl
  cases declaresOne resolves.binds.declares types.binds.declares

/- Where each declaration of the name states a type, the two notions agree. -/
theorem typesResolves (stated : ∀ k other, t.Declares name k other → other.isSome = true) :
    t.Types name use scope i type ↔ t.Resolves name use scope i (some type) := by
  refine ⟨fun types => ?_, resolvesTypes⟩
  exact ⟨types.around, types.apart, types.binds, trivial,
    fun k other binds _ => types.last k other binds (stated k other binds.declares),
    fun s k other around apart binds _ =>
      types.nearest s k other around apart binds (stated k other binds.declares)⟩

end Tree

namespace DeclaredTypes
variable {t : Tree} {name : String} {i scope use : NodeId} {type : String}

/-! ### One scope -/

theorem lastFound {good : Nat → Bool} {n i : Nat} : (List.range n).reverse.find? good = some i ↔
    i < n ∧ good i = true ∧ ∀ k < n, good k = true → k ≤ i := by
  induction n with
  | zero => simp
  | succ n ih =>
    rw [List.range_succ, List.reverse_append, List.reverse_singleton, List.singleton_append]
    cases own : good n with
    | true =>
      rw [List.find?_cons_of_pos own, Option.some_inj]
      constructor
      · rintro rfl
        exact ⟨Nat.lt_succ_self n, own, fun k below _ => Nat.le_of_lt_succ below⟩
      · rintro ⟨below, _, last⟩
        exact Nat.le_antisymm (last n (Nat.lt_succ_self n) own) (Nat.le_of_lt_succ below)
    | false =>
      rw [List.find?_cons_of_neg (by simp [own]), ih]
      have other {k : Nat} (holds : good k = true) (below : k < n + 1) : k < n := by
        refine Nat.lt_of_le_of_ne (Nat.le_of_lt_succ below) ?_
        rintro rfl
        rw [own] at holds
        cases holds
      exact ⟨fun ⟨below, holds, last⟩ => ⟨Nat.lt_succ_of_lt below, holds, fun k less more =>
          last k (other more less) more⟩,
        fun ⟨below, holds, last⟩ => ⟨other holds below, holds, fun k less more =>
          last k (Nat.lt_succ_of_lt less) more⟩⟩

theorem lastKnown {known? : Nat → Option TypedName} {good : TypedName → Bool} {n : Nat}
    {b : TypedName} :
    ((List.range n).filterMap known?).reverse.find? good = some b ↔
      ∃ i < n, known? i = some b ∧ good b = true ∧
        ∀ k < n, ∀ other, known? k = some other → good other = true → k ≤ i := by
  rw [← List.filterMap_reverse, List.find?_filterMap, Option.bind_eq_some_iff]
  refine exists_congr fun i => ?_
  rw [lastFound]
  constructor
  · rintro ⟨⟨inside, holds, last⟩, known⟩
    rw [known] at holds
    exact ⟨inside, known, holds, fun k less other own fine => last k less (by rw [own]; exact fine)⟩
  · rintro ⟨inside, known, holds, last⟩
    refine ⟨⟨inside, by rw [known]; exact holds, fun k less fine => ?_⟩, known⟩
    obtain ⟨other, own, fine⟩ := Option.any_eq_true .. |>.mp fine
    exact last k less other own fine

theorem declaredName : nameOf? t i = some ⟨name, scope, type⟩ ↔ t.Declares name i (some type) ∧
    (t.ancestors i).find? (t.kindIs NodeKind.isScope) = some scope := by
  unfold nameOf?
  constructor
  · intro known
    split at known
    · rename_i d held
      obtain ⟨name', named, known⟩ := Option.bind_eq_some_iff.mp known
      obtain ⟨type', stated, known⟩ := Option.bind_eq_some_iff.mp known
      obtain ⟨scope', found, known⟩ := Option.bind_eq_some_iff.mp known
      cases known
      exact ⟨stated ▸ .declarator held named, found⟩
    · rename_i p held
      obtain ⟨name', named, known⟩ := Option.bind_eq_some_iff.mp known
      obtain ⟨type', stated, known⟩ := Option.bind_eq_some_iff.mp known
      obtain ⟨scope', found, known⟩ := Option.bind_eq_some_iff.mp known
      cases known
      exact ⟨stated ▸ .parameter held named, found⟩
    · cases known
  · rintro ⟨declares, found⟩
    generalize stated : some type = type? at declares
    cases declares with
    | declarator held named | parameter held named =>
      simp [held, typedName?, named, ← stated, found]

section
variable (forest : t.Forest) (linked : t.Linked) (shallow : t.Shallow)
include forest linked shallow

theorem boundName : nameOf? t i = some ⟨name, scope, type⟩ ↔ t.Binds name scope i (some type) := by
  rw [declaredName, Tree.ancestorFound forest linked shallow]
  exact ⟨fun ⟨declares, within⟩ => ⟨declares, within⟩, fun ⟨declares, within⟩ => ⟨declares, within⟩⟩

/- The last declaration of the name in the scope that states a type. -/
theorem scopeType :
    inScope? ((ofTree t).names.filter (·.name == name)) scope = some type ↔
      ∃ i, t.Binds name scope i (some type) ∧
        ∀ k other, t.Binds name scope k other → other.isSome = true → k ≤ i := by
  have named {b : TypedName} : decide ((b.name == name) = true ∧ (b.scope == scope) = true) = true ↔
      b = ⟨name, scope, b.type⟩ := by
    obtain ⟨own, place, type⟩ := b
    simp
  unfold inScope?
  rw [← List.filter_reverse, List.find?_filter, Option.map_eq_some_iff]
  simp only [ofTree, lastKnown, named]
  constructor
  · rintro ⟨b, ⟨i, _, own, same, last⟩, rfl⟩
    refine ⟨i, (boundName forest linked shallow).mp (same ▸ own), fun k other binds stated => ?_⟩
    obtain ⟨type', rfl⟩ := Option.isSome_iff_exists.mp stated
    have inside := Tree.declaresInside binds.declares
    exact last k inside _ ((boundName forest linked shallow).mpr binds) rfl
  · rintro ⟨i, binds, last⟩
    have known := (boundName forest linked shallow).mpr binds
    refine ⟨_, ⟨i, Tree.declaresInside binds.declares, known, rfl, ?_⟩, rfl⟩
    intro k _ b own same
    exact last k _ ((boundName forest linked shallow).mp (same ▸ own)) rfl

theorem scopeAnswers (binds : t.Binds name scope i (some type)) :
    (inScope? ((ofTree t).names.filter (·.name == name)) scope).isSome = true := by
  have listed : ⟨name, scope, type⟩ ∈ (ofTree t).names :=
    List.mem_filterMap.mpr ⟨i, List.mem_range.mpr (Tree.declaresInside binds.declares),
      (boundName forest linked shallow).mpr binds⟩
  rw [inScope?, Option.isSome_map, List.find?_isSome]
  exact ⟨_, List.mem_reverse.mpr (List.mem_filter.mpr ⟨listed, beq_self_eq_true name⟩),
    beq_self_eq_true scope⟩

end

/-! ### The scopes around a name -/

theorem firstAnswer {answer? : NodeId → Option String} {row : List NodeId} :
    row.findSome? answer? = some type ↔ ∃ i,
      row.find? (fun i => (answer? i).isSome) = some i ∧ answer? i = some type := by
  induction row with
  | nil => simp
  | cons i row ih =>
    cases own : answer? i with
    | some found => simp [own]
    | none => simp [own, ih]

/- A name has the type of the last declaration with a type in the innermost scope that has one. -/
theorem scopesType (forest : t.Forest) (linked : t.Linked) (shallow : t.Shallow) :
    (ofTree t).typeOfName? t use name = some type ↔ ∃ scope i, t.Types name use scope i type := by
  rw [typeOfName?, firstAnswer]
  refine exists_congr fun scope => ?_
  rw [Tree.ancestorFound forest linked shallow, scopeType forest linked shallow]
  constructor
  · rintro ⟨⟨_, around, apart, nearest⟩, i, binds, last⟩
    refine ⟨i, around, apart, binds, rfl, last, fun s k other around apart binds stated => ?_⟩
    obtain ⟨type', rfl⟩ := Option.isSome_iff_exists.mp stated
    exact nearest s (scopeAnswers forest linked shallow binds) around apart
  · rintro ⟨i, around, apart, binds, _, last, nearest⟩
    have answers := scopeAnswers forest linked shallow binds
    refine ⟨⟨answers, around, apart, fun s answered around apart => ?_⟩, i, binds, last⟩
    obtain ⟨found, answer⟩ := Option.isSome_iff_exists.mp answered
    obtain ⟨k, binds, _⟩ := (scopeType forest linked shallow).mp answer
    exact nearest s k _ around apart binds rfl

theorem nameBare (named : t.identifier? (some i) = some name) : t.skipWrappers (some i) = some i := by
  have bare : t.valueInner? (some i) = none := by
    unfold Tree.identifier? at named
    split at named
    · rename_i held
      simp [Tree.valueInner?, Tree.parensInner?, Tree.parenthesized?, Tree.operand?, held]
    · cases named
  rw [Tree.skipWrappers, maxAscent, Tree.unwrapBy, bare]

theorem typeOfIdentifier (named : t.identifier? (some i) = some name) (d : DeclaredTypes) :
    d.typeOf? t (some i) = d.typeOfName? t i name := by
  simp only [typeOf?, nameBare named, Option.bind_eq_bind, Option.bind_some, named]

end DeclaredTypes

namespace Program
open DeclaredTypes

/- A name has the type that the declaration chosen by lexical scoping states. Where that one states
none, the name has no type or that of a declaration before it in its scope or of one further out. -/
theorem namesScoped (fileName : String) (text : List Char) (i : NodeId) (name : String) :
    let t := (parse fileName text).tree
    let type? := (ofTree t).typeOf? t (some i)
    t.Shallow → t.identifier? (some i) = some name →
    (∀ type, type? = some type ↔ ∃ scope k, t.Types name i scope k type) ∧
    (∀ scope k type, t.Resolves name i scope k (some type) → type? = some type) ∧
    (∀ scope k type, t.Resolves name i scope k none → type? = some type → ∃ outer j,
      t.Binds name outer j (some type) ∧ t.Under outer scope ∧ (outer = scope → j < k)) := by
  intro t type? shallow named
  have exact {type : String} : type? = some type ↔ ∃ scope k, t.Types name i scope k type := by
    rw [show type? = _ from typeOfIdentifier named _]
    exact scopesType (treeForest fileName text) (treeChildren fileName text) shallow
  refine ⟨fun type => exact, fun scope k type resolves => ?_, fun scope k type resolves known => ?_⟩
  · exact exact.mpr ⟨scope, k, Tree.resolvesTypes resolves⟩
  · obtain ⟨outer, j, types⟩ := exact.mp known
    exact ⟨outer, j, types.binds, Tree.resolvesOther resolves types⟩

/- In a program whose declarations of the name all state a type, scoping alone decides. -/
theorem typedScoped (fileName : String) (text : List Char) (i : NodeId) (name : String) :
    let t := (parse fileName text).tree
    t.Shallow → t.identifier? (some i) = some name →
    (∀ k other, t.Declares name k other → other.isSome = true) →
    ∀ type, (ofTree t).typeOf? t (some i) = some type ↔
      ∃ scope k, t.Resolves name i scope k (some type) := by
  intro t shallow named stated type
  rw [(namesScoped fileName text i name shallow named).1 type]
  exact exists_congr fun scope => exists_congr fun k => Tree.typesResolves stated

/- The parameter states no type and does not hide the variable. -/
example :
    let t := (parse "input.ts" "let x: Sink = a(); function f(x) { x.add(1); }".toList).tree
    t.identifier? (some 9) = some "x" ∧ (ofTree t).typeOf? t (some 9) = some "Sink" := by
  decide +kernel

end Program
end CallGuard
