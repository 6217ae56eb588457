import CallGuard.Proofs.Condition.Entailment
import CallGuard.Proofs.Phrase.Parts
import CallGuard.Proofs.Rule.Evaluation
import CallGuard.Proofs.Text.Places
import CallGuard.Proofs.Token.Separate
import Mathlib.Data.List.TakeWhile

/-! What a rule says about a call. The first argument of its message is the name of the call, and a name that
is there is a word: it opens no place, closes none and is no number, so that the message is what one pass
over the template gives, whatever the guard holds. -/
namespace CallGuard

/-! ### Words -/

/- A character that begins words, then characters of words. -/
def IsWord (text : List Char) : Prop :=
  ∃ c cs, text = c :: cs ∧ isWordStart c = true ∧ ∀ d ∈ text, isWordPart d = true

theorem wordInert {text : List Char} (word : IsWord text) : Template.Inert text := by
  obtain ⟨c, cs, rfl, starts, parts⟩ := word
  have digit : ¬ c.isDigit = true := fun digit =>
    Bool.false_ne_true ((digitPlain (show isAsciiDigit c = true from digit)).1.symm.trans starts)
  refine ⟨fun brace => absurd (parts _ brace) (by decide +kernel), c, cs, ?_, ?_⟩
  · rw [List.dropWhile_cons_of_neg digit]
  · rintro rfl
    exact absurd starts (by decide +kernel)

namespace Lexeme

theorem readWord (start : Nat) (c : Char) (cs : List Char) :
    (read start c cs).kind.isNameLike = true → IsWord (read start c cs).value := by
  unfold read
  split
  · rename_i starts
    have first := List.takeWhile_cons_of_pos (wordStartPart starts) (l := cs)
    exact fun _ => ⟨c, _, first, starts, fun d mem => List.mem_takeWhile_imp mem⟩
  · split
    · nofun
    · split
      · nofun
      · split
        · nofun
        · split <;> nofun

end Lexeme

namespace Scan

theorem nextWord (offset : Nat) (text : List Char) (named : (next offset text).token.kind.isNameLike = true) :
    IsWord (next offset text).token.value.toList := by
  unfold next at named ⊢
  generalize Trivia.skip .between false offset text = gap at named ⊢
  unfold afterGap at named ⊢
  split at named
  · cases named
  · dsimp only at named ⊢
    rw [String.toList_ofList]
    exact Lexeme.readWord _ _ _ named

theorem allWords (offset : Nat) (text : List Char) :
    ∀ s ∈ all offset text, s.token.kind.isNameLike = true → IsWord s.token.value.toList := by
  fun_induction all offset text with
  | case1 offset text s =>
    intro k mem named
    rw [List.mem_singleton.mp mem] at named ⊢
    exact nextWord offset text named
  | case2 offset text s _ _ ih =>
    intro k mem named
    rcases List.mem_cons.mp mem with rfl | later
    · exact nextWord offset text named
    · exact ih k later named

end Scan

/-! ### The name of a call -/

namespace Tree
variable {t : Tree} {root i : NodeId} {s : Slot} {p : Payload}

/- What stands there, if anything, is under the root. -/
def Lies (t : Tree) (root : NodeId) (s : Slot) : Prop := ∀ i ∈ s, t.Under root i

theorem ownLies (forest : t.Forest) (linked : t.Linked) (lies : t.Lies root s) (held : t.payload? s = some p)
    {child : Slot} (own : child ∈ p.slots) : t.Lies root child := by
  rintro j rfl
  obtain ⟨i, rfl, held⟩ := Option.bind_eq_some_iff.mp held
  exact underTrans (lies i rfl) (.down (linked.child (heldParent forest held own)) (.self j))

theorem skipLies (forest : t.Forest) (linked : t.Linked) (lies : t.Lies root s) :
    t.Lies root (t.skipParens s) := by
  unfold skipParens
  generalize maxAscent = limit
  induction limit generalizing s with
  | zero => exact lies
  | succ limit ih =>
    rw [unwrapBy]
    cases around : t.parensInner? s with
    | none => exact lies
    | some inner =>
      refine ih ?_
      rcases layerHeld around with held | held
      · exact ownLies forest linked lies held List.mem_cons_self
      · exact ownLies forest linked lies held List.mem_cons_self

theorem siteNamed {site : CallSite} (forest : t.Forest) (linked : t.Linked) (reached : t.Under root i)
    (called : t.callSite? i = some site) :
    ∃ j, t.Under root j ∧ t.payloadAt? j = some (.identifier site.name) := by
  have named {s : Slot} {name : String} (lies : t.Lies root s) (held : t.identifier? s = some name) :
      ∃ j, t.Under root j ∧ t.payloadAt? j = some (.identifier name) := by
    obtain ⟨j, rfl, there⟩ := Option.bind_eq_some_iff.mp (identifierHeld held)
    exact ⟨j, lies j rfl, there⟩
  obtain ⟨call, held, called⟩ := Option.bind_eq_some_iff.mp called
  have here : t.Lies root (some i) := by
    rintro _ ⟨⟩
    exact reached
  have callee : t.Lies root (t.skipParens call.callee) :=
    skipLies forest linked (ownLies forest linked here (callHeld held) List.mem_cons_self)
  dsimp only at called
  split at called
  · obtain ⟨access, accessed, called⟩ := Option.bind_eq_some_iff.mp called
    obtain ⟨name, held, called⟩ := Option.bind_eq_some_iff.mp called
    cases called
    exact named (ownLies forest linked callee (accessHeld accessed) (.tail _ (.head _))) held
  · obtain ⟨name, held, called⟩ := Option.bind_eq_some_iff.mp called
    cases called
    exact named callee held

end Tree

/- A name is taken from a token. -/
theorem Phrase.madeNamed {c : Category} {kind : NodeKind} {name : String} {row : List Part}
    (made : Made c kind (some (.identifier name)) row) :
    ∃ k : Token, Has k row ∧ k.kind.isNameLike = true ∧ k.value = name := by
  cases made with
  | name _ named => exact ⟨_, .inl List.mem_cons_self, named, rfl⟩
  | identifier _ kind => exact ⟨_, .inl List.mem_cons_self, kind ▸ rfl, rfl⟩

namespace Program
open Phrase Template

/- In a text without faults each call that has a name is named by a word of the text. -/
theorem siteWord {fileName : String} {text : List Char} (clean : (parse fileName text).errors = [])
    {i : NodeId} {site : CallSite} :
    let p := parse fileName text
    p.tree.Under p.root i → p.tree.callSite? i = some site → IsWord site.name.toList := by
  intro p reached called
  have forest := treeForest fileName text
  obtain ⟨j, under, held⟩ := Tree.siteNamed forest (treeChildren fileName text) reached called
  obtain ⟨n, c, row, composed, taken⟩ := nodesComposed clean j under
  rw [Tree.payloadAgreed composed.found (forest.agrees j n composed.found)] at held
  obtain ⟨k, has, named, value⟩ := madeNamed (held ▸ composed.made)
  obtain ⟨scan, listed, rfl⟩ := List.mem_map.mp (taken k has)
  exact value ▸ Scan.allWords 0 text scan listed named

/- What is said about a call of a text without faults is one pass over what the rule says. -/
theorem messagesAtOnce {fileName : String} {text : List Char} {types : TypeOracle}
    (clean : (parse fileName text).errors = []) {rule : Rule} {i : NodeId} {n : Node} {site : CallSite} :
    let p := parse fileName text
    let a : Analysis := ⟨p.tree, p.root, fileName, types⟩
    a.Unguarded rule i n site →
      let d := a.diagnose rule site n
      let args := [site.name.toList, (Analysis.guardText p.tree site rule.guard).toList]
      Filled 0 args rule.message.toList d.message.toList ∧
        ∀ said ∈ rule.correction?, ∃ told ∈ d.correction?, Filled 0 args said.toList told.toList := by
  intro p a unguarded d args
  have called := Analysis.matchSite unguarded.about
  have word := siteWord clean unguarded.reached called
  have once (template : String) : Filled 0 args template.toList
      (fill template [site.name, Analysis.guardText p.tree site rule.guard]).toList := by
    rw [fill, String.toList_ofList]
    exact fillsAtOnce 0 args _ fun arg mem => List.mem_singleton.mp mem ▸ wordInert word
  refine ⟨once rule.message, fun said there => ⟨_, ?_, once said⟩⟩
  exact Option.mem_map_of_mem (fill · _) there

end Program
end CallGuard
