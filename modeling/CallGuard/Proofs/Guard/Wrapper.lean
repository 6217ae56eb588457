import CallGuard.Analysis.Evaluate
import CallGuard.Proofs.Condition.Entailment
import CallGuard.Proofs.Parser.Placed
import CallGuard.Proofs.Tree.Innermost

/-! Calls around a leaf of a container. The search for the container and the search for a wrapper go up to
the same place, the innermost function or list. Every call on the way with the name of a wrapper counts,
whether the leaf is one of its arguments, stands in one of them or is what the call is made on. -/
namespace CallGuard.Tree

variable {t : Tree} {site i : NodeId}

/- Neither search goes on above a function or a list. -/
def isBoundary (t : Tree) (i : NodeId) : Bool :=
  t.kindIs (fun k => k.isFunctionLike || k == .arrayLiteral) i

def isNamedCall (t : Tree) (names : List String) (i : NodeId) : Bool :=
  (t.callSite? i).any fun call => names.contains call.name

/- The list is what a property holds, and the object of the property is an argument of the container. -/
structure SlotList (t : Tree) (containers : List String) (slot : String) (container list : NodeId) : Prop where
  kind : t.kindIs (· == .arrayLiteral) list = true
  held : ∃ holder property object call, t.parent? list = some holder ∧
    t.property? (some holder) = some property ∧ property.init = some list ∧
    t.identifier? property.name = some slot ∧ t.parent? holder = some object ∧
    t.callTakingArgument? object = some call ∧ call.name ∈ containers ∧ call.node = container

/- A call with one of the names between a node and what is above it. -/
structure CallBetween (t : Tree) (names : List String) (top site call : NodeId) : Prop where
  below : t.Under top call
  apart : call ≠ top
  around : t.Under call site
  other : call ≠ site
  named : ∃ c, t.callSite? call = some c ∧ c.name ∈ names

/- One of the arguments of a call is the node or holds it. -/
def InArgument (t : Tree) (call site : NodeId) : Prop :=
  ∃ c args arg, t.call? (some call) = some c ∧ c.args = some args ∧ some arg ∈ args.items ∧ t.Under arg site

theorem namedCall {names : List String} :
    t.isNamedCall names i = true ↔ ∃ c, t.callSite? i = some c ∧ c.name ∈ names := by
  simp [isNamedCall, Option.any_eq_true]

/- What is found on a way that may be cut off is the innermost one all the same. -/
theorem foundInnermost {p : NodeId → Bool} {f : NodeId} (linked : t.Linked) {limit : Nat}
    (found : (t.chain limit (t.parent? i)).find? p = some f) : t.Innermost p i f := by
  induction limit generalizing i with
  | zero => cases found
  | succ limit ih =>
    cases above : t.parent? i with
    | none =>
      rw [above] at found
      cases found
    | some parent =>
      rw [above] at found
      change (parent :: t.chain limit (t.parent? parent)).find? p = some f at found
      cases holds : p parent with
      | true =>
        rw [List.find?_cons_of_pos holds] at found
        exact (innermostHere linked above holds).mpr (Option.some.inj found)
      | false =>
        rw [List.find?_cons_of_neg (by simp [holds])] at found
        exact (innermostFurther linked above holds).mpr (ih found)

theorem boundaryParts (t : Tree) (i : NodeId) :
    t.isBoundary i = (t.kindIs NodeKind.isFunctionLike i || t.kindIs (· == .arrayLiteral) i) := by
  unfold isBoundary kindIs
  cases t.kind? i <;> simp

theorem wrapperNext (wrappers : List String) (current : NodeId) (above : List NodeId) :
    t.wrapperAbove? wrappers (current :: above) =
      if t.isBoundary current then none
      else if t.isNamedCall wrappers current then some ⟨.wrapper, t.parent? current, current⟩
      else t.wrapperAbove? wrappers above := rfl

theorem wrapperFirst (wrappers : List String) (above : List NodeId) :
    t.wrapperAbove? wrappers above =
      (above.find? fun i => t.isBoundary i || t.isNamedCall wrappers i).bind fun i =>
        if t.isBoundary i then none else some ⟨.wrapper, t.parent? i, i⟩ := by
  induction above with
  | nil => rfl
  | cons current above ih =>
    rw [wrapperNext, ih]
    cases stop : t.isBoundary current with
    | true => simp [stop]
    | false => cases named : t.isNamedCall wrappers current <;> simp [stop, named]

theorem containerFirst {containers : List String} {slot : String} {above : List NodeId} {container : NodeId}
    (found : Analysis.containerAbove? t containers slot above = some container) :
    ∃ list, above.find? t.isBoundary = some list ∧ t.SlotList containers slot container list := by
  induction above with
  | nil => cases found
  | cons current above ih =>
    rw [Analysis.containerAbove?] at found
    split at found
    · cases found
    · rename_i noFunction
      split at found
      · rename_i kind
        obtain ⟨holder, above, rest⟩ := Option.bind_eq_some_iff.mp found
        dsimp only at rest
        split at rest
        · obtain ⟨property, property', rest⟩ := Option.bind_eq_some_iff.mp rest
          split at rest
          · rename_i held
            obtain ⟨object, object', rest⟩ := Option.bind_eq_some_iff.mp rest
            obtain ⟨call, call', rest⟩ := Option.bind_eq_some_iff.mp rest
            split at rest
            · rename_i listed
              rw [Bool.and_eq_true, beq_iff_eq, beq_iff_eq] at held
              exact ⟨current, List.find?_cons_of_pos (by simp [boundaryParts, kind]), kind, holder, property,
                object, call, above, property', held.1, held.2, object', call', by simpa using listed,
                Option.some.inj rest⟩
            · cases rest
          · cases rest
        · cases rest
      · rename_i noList
        obtain ⟨list, first, slotted⟩ := ih found
        exact ⟨list, by rw [List.find?_cons_of_neg (by simp [boundaryParts, noFunction, noList]), first], slotted⟩

theorem underAntisymm (linked : t.Linked) {a b : NodeId} (one : t.Under a b) (two : t.Under b a) : a = b :=
  Nat.le_antisymm (underLe linked two) (underLe linked one)

/- Both searches end at the list, so that the wrapper is the innermost one below it. -/
theorem wrapperInnermost (linked : t.Linked) (wrappers : List String) {containers : List String}
    {slot : String} {container : NodeId}
    (found : Analysis.containerSlot? t site containers slot = some container) :
    ∃ list, t.SlotList containers slot container list ∧ t.Innermost t.isBoundary site list ∧
      (t.wrapperGuard? site wrappers = none → ∀ call, ¬ t.CallBetween wrappers list site call) ∧
      ∀ guard, t.wrapperGuard? site wrappers = some guard →
        ∃ call, t.CallBetween wrappers list site call ∧
          (∀ other, t.CallBetween wrappers list site other → t.Under other call) ∧
          guard = ⟨.wrapper, t.parent? call, call⟩ := by
  obtain ⟨list, first, slotted⟩ := containerFirst found
  have inner := foundInnermost linked first
  let stops i := t.isBoundary i || t.isNamedCall wrappers i
  have listStops : stops list = true := by simp [stops, inner.holds]
  obtain ⟨k, first'⟩ : ∃ k, (t.ancestors site).find? stops = some k :=
    Option.isSome_iff_exists.mp
      (List.find?_isSome.mpr ⟨list, List.mem_of_find?_eq_some first, listStops⟩)
  have near := foundInnermost linked first'
  have below : t.Under list k := near.nearest list listStops inner.around inner.apart
  have between {call : NodeId} (call' : t.CallBetween wrappers list site call) : t.Under call k :=
    near.nearest call (by simp [stops, namedCall.mpr call'.named]) call'.around call'.other
  have answer : t.wrapperGuard? site wrappers =
      if t.isBoundary k then none else some ⟨.wrapper, t.parent? k, k⟩ := by
    rw [wrapperGuard?, wrapperFirst, first', Option.bind_some]
  refine ⟨list, slotted, inner, ?_⟩
  cases boundary : t.isBoundary k with
  | true =>
    obtain rfl := underAntisymm linked below (inner.nearest k boundary near.around near.apart)
    rw [answer, if_pos boundary]
    exact ⟨fun _ call call' => call'.apart (underAntisymm linked (between call') call'.below), nofun⟩
  | false =>
    have named : t.isNamedCall wrappers k = true := by simpa [stops, boundary] using near.holds
    have apart : k ≠ list := by
      rintro rfl
      rw [inner.holds] at boundary
      cases boundary
    rw [answer, if_neg (by simp [boundary])]
    refine ⟨nofun, fun guard same => ⟨k, ?_, fun _ => between, (Option.some.inj same).symm⟩⟩
    exact ⟨below, apart, near.around, near.apart, namedCall.mp named⟩

end CallGuard.Tree

namespace CallGuard.Program

/- Where a call stands in the slot of a container, nothing but a call between the two with the name of a
wrapper protects it, and of several such calls the innermost one does. -/
theorem wrapperNearest (fileName : String) (text : List Char) (site : NodeId) (containers : List String)
    (slot : String) (wrappers : List String) :
    let t := (parse fileName text).tree
    ∀ container, Analysis.containerSlot? t site containers slot = some container →
      ∃ list, t.SlotList containers slot container list ∧ t.Innermost t.isBoundary site list ∧
        ((t.wrapperGuard? site wrappers).isSome = true ↔ ∃ call, t.CallBetween wrappers list site call) ∧
        ∀ guard, t.wrapperGuard? site wrappers = some guard →
          ∃ call, t.CallBetween wrappers list site call ∧
            (∀ other, t.CallBetween wrappers list site other → t.Under other call) ∧
            guard = ⟨.wrapper, t.parent? call, call⟩ := by
  intro t container found
  have linked : t.Linked := treeChildren fileName text
  obtain ⟨list, slotted, inner, absent, present⟩ := Tree.wrapperInnermost linked wrappers found
  refine ⟨list, slotted, inner, ⟨fun guarded => ?_, fun ⟨call, between⟩ => ?_⟩, present⟩
  · obtain ⟨guard, same⟩ := Option.isSome_iff_exists.mp guarded
    obtain ⟨call, between, _⟩ := present guard same
    exact ⟨call, between⟩
  · by_contra none
    exact absent (by simpa using none) call between

/- Two wrappers around a text, one in the other. -/
theorem wrapperNearestOuter :
    let t := (parse "f" "Row({ children: [Expanded(Flexible(Text()))] });".toList).tree
    let wrappers := ["Expanded", "Flexible"]
    Analysis.containerSlot? t 5 ["Row"] "children" = some 11 ∧
      ∃ guard, t.wrapperGuard? 5 wrappers = some guard ∧
      ∃ list call, t.CallBetween wrappers list 5 call ∧
        (∀ other, t.CallBetween wrappers list 5 other → t.Under other call) ∧
        guard = ⟨.wrapper, t.parent? call, call⟩ := by
  intro t wrappers
  have facts : Analysis.containerSlot? t 5 ["Row"] "children" = some 11 ∧
      (t.wrapperGuard? 5 wrappers).isSome = true := by decide +kernel
  obtain ⟨list, _, _, _, present⟩ := wrapperNearest "f" _ 5 ["Row"] "children" wrappers 11 facts.1
  obtain ⟨guard, same⟩ := Option.isSome_iff_exists.mp facts.2
  exact ⟨facts.1, guard, same, list, present guard same⟩

/- The wrapper is a method of the text: it has no argument at all. -/
theorem wrapperOnReceiver :
    let t := (parse "f" "Row({ children: [Text(1).Expanded()] });".toList).tree
    let wrappers := ["Expanded", "Flexible"]
    Analysis.containerSlot? t 4 ["Row"] "children" = some 11 ∧
      t.wrapperGuard? 4 wrappers = some ⟨.wrapper, some 8, 7⟩ ∧
      ¬ ∃ list call, t.CallBetween wrappers list 4 call ∧ t.InArgument call 4 := by
  intro t wrappers
  have facts : Analysis.containerSlot? t 4 ["Row"] "children" = some 11 ∧
      t.wrapperGuard? 4 wrappers = some ⟨.wrapper, some 8, 7⟩ ∧
      ∀ i < t.size, t.isNamedCall wrappers i = true →
        ∀ c ∈ t.call? (some i), ∀ args ∈ c.args, args.items = [] := by decide +kernel
  obtain ⟨slotted, guarded, empty⟩ := facts
  refine ⟨slotted, guarded, ?_⟩
  rintro ⟨list, call, between, c, args, arg, held, listed, member, _⟩
  have inside : call < t.size := Tree.heldInside (Tree.callHeld held)
  rw [empty call inside (Tree.namedCall.mpr between.named) c held args listed] at member
  cases member

end CallGuard.Program
