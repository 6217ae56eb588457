import CallGuard.Proofs.Phrase.Parts

/-! The words `await` and `yield`. Where they are no names and stand in no type, they begin an
expression of their own or follow the `for` of a loop; no other part of a program takes them. -/
namespace CallGuard
namespace Phrase
open Parse

def suspends (k : TokenKind) : Bool := k == .word .awaitWord || k == .word .yieldWord

/- No token of the row itself is one of the words. -/
def Wordless (row : List Part) : Prop := ∀ k, .token k ∈ row → suspends k.kind = false

section
variable {k opening closing : TokenKind} {c : Category} {cs : List Category} {s : Slot}
  {items : List Slot} {l : NodeList} {there : Bool} {kind : NodeKind} {row more : List Part} {t : Token}

@[simp] theorem wordlessNil : Wordless [] := nofun

@[simp] theorem wordlessToken : Wordless (.token t :: row) ↔ suspends t.kind = false ∧ Wordless row := by
  simp [Wordless]

@[simp] theorem wordlessNode {i : NodeId} : Wordless (.node c i :: row) ↔ Wordless row := by
  simp [Wordless]

@[simp] theorem wordlessAppend : Wordless (row ++ more) ↔ Wordless row ∧ Wordless more := by
  simp [Wordless, or_imp, forall_and]

theorem wordlessKind (kind : t.kind = k) (other : suspends k = false) :
    suspends t.kind = false := kind ▸ other

theorem maybeWordless (maybe : Maybe k there row) (other : suspends k = false) :
    Wordless row := by
  cases maybe with
  | absent => simp
  | there kind => simp [wordlessKind kind other]

theorem perhapsWordless (perhaps : Perhaps c s row) : Wordless row := by
  cases perhaps <;> simp

theorem behindWordless (behind : Behind k c s row) (other : suspends k = false) :
    Wordless row := by
  cases behind with
  | absent => simp
  | there kind => simp [wordlessKind kind other]

theorem droppedWordless (dropped : Dropped row) : Wordless row := by
  obtain ⟨ts, rfl⟩ := dropped
  simp [Wordless]

theorem marksWordless (marks : Marks row) : Wordless row := by
  induction marks with
  | nil => simp
  | next _ mark ih =>
    rcases mark with kind | kind | kind <;> simp [ih, wordlessKind kind rfl]

theorem ledWordless (led : Led cs items row) : Wordless row := by
  induction led with
  | nil => simp
  | next _ _ comma ih => simp [ih, wordlessKind comma rfl]

theorem listedWordless (listed : Listed cs items row) : Wordless row := by
  cases listed with
  | led led => exact ledWordless led
  | last before => simp [ledWordless before]

theorem bracketedWordless (list : Bracketed opening closing cs l row)
    (other : suspends opening = false) (other' : suspends closing = false) : Wordless row := by
  cases list with
  | mk opens listed closes =>
    simp [listedWordless listed, wordlessKind opens other, wordlessKind closes other']

theorem typeArgumentsWordless {types : Option NodeList} (generic : TypeArguments types row) :
    Wordless row := by
  cases generic with
  | absent => simp
  | there given => exact bracketedWordless given rfl rfl

theorem yieldedWordless (value : Yielded s row) : Wordless row := by
  cases value with
  | absent | plain => simp
  | all star => simp [wordlessKind star rfl]

theorem bodiedWordless (bodied : Bodied s row) : Wordless row := by
  cases bodied with
  | block => simp
  | absent semicolon => exact maybeWordless semicolon rfl

theorem restedWordless {f : Function} (rested : Rested f row) : Wordless row := by
  cases rested with
  | mk dropped given result bodied =>
    simp [droppedWordless dropped, bracketedWordless given rfl rfl, behindWordless result rfl,
      bodiedWordless bodied]

theorem headedWordless (headed : Headed c kind s row) : Wordless row := by
  cases headed with
  | declaration marked | named marked | method marked => simp [marksWordless marked]
  | anonymous marked | constructor marked => exact marksWordless marked
  | classMethod marked asks bangs =>
    simp [marksWordless marked, maybeWordless asks rfl, maybeWordless bangs rfl]

theorem arrowParametersWordless (given : ArrowParameters l row) : Wordless row := by
  cases given with
  | bare => simp
  | bracketed dropped given => simp [droppedWordless dropped, bracketedWordless given rfl rfl]

theorem testedWordless (tested : Tested s row) : Wordless row := by
  cases tested with
  | mk opens closes => simp [wordlessKind opens rfl, wordlessKind closes rfl]

theorem statedWordless (stated : Stated s row) : Wordless row := by
  cases stated with
  | plain | block => simp
  | declarations semicolon => simp [maybeWordless semicolon rfl]

theorem statementsWordless (statements : Statements items row) : Wordless row := by
  induction statements with
  | nil => simp
  | next _ stated ih => simp [ih, statedWordless stated]

theorem otherwiseWordless (otherwise : Otherwise s row) : Wordless row := by
  cases otherwise with
  | absent => simp
  | there kind stated => simp [wordlessKind kind rfl, statedWordless stated]

theorem beginsWordless (begins : Begins s row) : Wordless row := by
  cases begins <;> simp

theorem catchesWordless (catches : Catches s row) : Wordless row := by
  cases catches with
  | absent => simp
  | there opens closes => simp [wordlessKind opens rfl, wordlessKind closes rfl]

theorem extendsWordless (extended : Extends s row) : Wordless row := by
  cases extended with
  | absent => simp
  | there kind dropped => simp [wordlessKind kind rfl, droppedWordless dropped]

theorem membersWordless (members : Members items row) : Wordless row := by
  induction members with
  | nil => simp
  | member _ ih => simp [ih]
  | semicolon _ kind ih => simp [ih, wordlessKind kind rfl]
  | marks _ marked ih => simp [ih, marksWordless marked]

/- What takes one of the words. -/
inductive Takes (k : Token) : Category → NodeKind → Option Payload → List Part → Prop where
  | await {payload : Option Payload} {x : NodeId} (word : k.kind = .word .awaitWord) :
      Takes k .expression .awaitExpression payload [.token k, .node .expression x]
  | yield {payload : Option Payload} {row : List Part} (word : k.kind = .word .yieldWord) :
      Takes k .expression .yieldExpression payload (.token k :: row)
  | name {c : Category} (role : c = .name ∨ c = .key) :
      Takes k c (.token .identifier) (some (.identifier k.value)) [.token k]
  | loop {kind : NodeKind} {payload : Option Payload} {t : Token} {row : List Part}
      (before : t.kind = .word .forWord) (word : k.kind = .word .awaitWord)
      (loops : kind = .forStatement ∨ kind = .forOfStatement ∨ kind = .forInStatement) :
      Takes k .statement kind payload (.token t :: .token k :: row)

theorem joinsOther {k : TokenKind} (joined : joins k = true) : suspends k = false := by
  by_contra word
  rcases Bool.or_eq_true_iff.mp (Bool.eq_true_of_not_eq_false word) with word | word
  all_goals
    rw [beq_iff_eq.mp word] at joined
    cases joined

theorem prefixOther {k : TokenKind} (operator : isPrefixOperator k = true) : suspends k = false := by
  by_contra word
  rcases Bool.or_eq_true_iff.mp (Bool.eq_true_of_not_eq_false word) with word | word
  all_goals
    rw [beq_iff_eq.mp word] at operator
    cases operator

theorem iteratesOther {k : TokenKind} (loops : Iterates kind k) :
    suspends k = false ∧ (kind = .forOfStatement ∨ kind = .forInStatement) := by
  cases loops with
  | items => exact ⟨rfl, .inl rfl⟩
  | keys => exact ⟨rfl, .inr rfl⟩

theorem exitsOther {k : TokenKind} (word : Exits kind k) : suspends k = false := by
  cases word <;> rfl

theorem jumpsOther {k : TokenKind} (word : Jumps kind k) : suspends k = false := by
  cases word <;> rfl

theorem wordlessTakes {payload : Option Payload} {k : Token} (quiet : Wordless row)
    (own : .token k ∈ row) (word : suspends k.kind = true) : Takes k c kind payload row :=
  Bool.noConfusion ((quiet k own).symm.trans word)

theorem loopTakes {payload : Option Payload} {k : Token} (before : t.kind = .word .forWord)
    (awaiting : Maybe (.word .awaitWord) there more) (quiet : Wordless row)
    (loops : kind = .forStatement ∨ kind = .forOfStatement ∨ kind = .forInStatement)
    (own : .token k ∈ .token t :: (more ++ row)) (word : suspends k.kind = true) :
    Takes k .statement kind payload (.token t :: (more ++ row)) := by
  cases awaiting with
  | absent => exact wordlessTakes (by simp [wordlessKind before rfl, quiet]) own word
  | @there w waits =>
    by_cases same : k = w
    · subst same
      exact .loop before waits loops
    · have rest : .token k ∈ .token t :: row := by simpa [same] using own
      exact absurd ((show Wordless (.token t :: row) by simp [wordlessKind before rfl, quiet]) k rest)
        (by simp [word])

theorem madeTakes {payload : Option Payload} (made : Made c kind payload row) {k : Token}
    (own : .token k ∈ row) (word : suspends k.kind = true) : Takes k c kind payload row := by
  cases made with
  -- The parts that take one of the words.
  | @name _ t role =>
    obtain rfl : k = t := by simpa using own
    exact .name role
  | @awaited t _ kind =>
    obtain rfl : k = t := by simpa using own
    exact .await kind
  | @yielded t _ row kind value =>
    rcases List.mem_cons.mp own with same | rest
    · cases same
      exact .yield kind
    · exact absurd (yieldedWordless value k rest) (by simp [word])
  | counted before awaiting opens begins first tests second steps closes stated =>
    have head := begins.elim (fun none => none.2 ▸ wordlessNil) beginsWordless
    exact loopTakes before awaiting (by simp [wordlessKind opens rfl, head, wordlessKind first rfl,
      perhapsWordless tests, wordlessKind second rfl, perhapsWordless steps, wordlessKind closes rfl,
      statedWordless stated]) (.inl rfl) own word
  | iterated before awaiting opens begins loops closes stated =>
    obtain ⟨other, turns⟩ := iteratesOther loops
    exact loopTakes before awaiting (by simp [wordlessKind opens rfl, beginsWordless begins, other,
      wordlessKind closes rfl, statedWordless stated]) (.inr turns) own word
  -- All others.
  | identifier _ kind | bound kind | empty kind =>
    exact wordlessTakes (by simp [wordlessKind kind rfl]) own word
  | constant kind =>
    rcases kind with kind | kind | kind | kind | kind <;>
      exact wordlessTakes (by simp [wordlessKind kind rfl]) own word
  | literal _ kind =>
    rcases kind with kind | kind | kind <;>
      exact wordlessTakes (by simp [wordlessKind kind rfl]) own word
  | computed opens closes | parenthesized opens closes =>
    exact wordlessTakes (by simp [wordlessKind opens rfl, wordlessKind closes rfl]) own word
  | type => exact wordlessTakes (droppedWordless ⟨_, rfl⟩) own word
  | hole => exact wordlessTakes wordlessNil own word
  | binary operator => exact wordlessTakes (by simp [joinsOther operator]) own word
  | conditional asks parts =>
    exact wordlessTakes (by simp [wordlessKind asks rfl, wordlessKind parts rfl]) own word
  | prefixed operator => exact wordlessTakes (by simp [prefixOther operator]) own word
  | postfixed operator =>
    rcases operator with kind | kind <;> exact wordlessTakes (by simp [wordlessKind kind rfl]) own word
  | spread mark | nonNull mark => exact wordlessTakes (by simp [wordlessKind mark rfl]) own word
  | @property _ t _ optional mark =>
    cases optional <;> exact wordlessTakes (by simp [wordlessKind mark rfl]) own word
  | element asks opens closes =>
    exact wordlessTakes (by simp [maybeWordless asks rfl, wordlessKind opens rfl,
      wordlessKind closes rfl]) own word
  | call asks generic given =>
    exact wordlessTakes (by simp [maybeWordless asks rfl, typeArgumentsWordless generic,
      bracketedWordless given rfl rfl]) own word
  | bareConstruction new generic =>
    exact wordlessTakes (by simp [wordlessKind new rfl, typeArgumentsWordless generic]) own word
  | construction new generic given =>
    exact wordlessTakes (by simp [wordlessKind new rfl, typeArgumentsWordless generic,
      bracketedWordless given rfl rfl]) own word
  | array _ items | object _ items => exact wordlessTakes (bracketedWordless items rfl rfl) own word
  | assigned marked mark =>
    exact wordlessTakes (by simp [marksWordless marked, wordlessKind mark rfl]) own word
  | shorthand marked initial =>
    exact wordlessTakes (by simp [marksWordless marked, behindWordless initial rfl]) own word
  | parameter marked name rests asks typed initial =>
    exact wordlessTakes (by simp [marksWordless marked, maybeWordless rests rfl, maybeWordless asks rfl,
      behindWordless typed rfl, behindWordless initial rfl]) own word
  | function headed rested =>
    exact wordlessTakes (by simp [headedWordless headed, restedWordless rested]) own word
  | arrow marked anonymous given result mark =>
    exact wordlessTakes (by simp [marksWordless marked, arrowParametersWordless given,
      behindWordless result rfl, wordlessKind mark rfl]) own word
  | declarator name bangs typed initial =>
    exact wordlessTakes (by simp [maybeWordless bangs rfl, behindWordless typed rfl,
      behindWordless initial rfl]) own word
  | declarations kind items =>
    rcases kind with kind | kind | kind <;>
      exact wordlessTakes (by simp [wordlessKind kind rfl, listedWordless items]) own word
  | field marked name asks bangs typed initial semicolon =>
    exact wordlessTakes (by simp [marksWordless marked, maybeWordless asks rfl, maybeWordless bangs rfl,
      behindWordless typed rfl, behindWordless initial rfl, maybeWordless semicolon rfl]) own word
  | classDeclaration kind named dropped extended implemented opens members closes =>
    exact wordlessTakes (by simp [wordlessKind kind rfl, perhapsWordless named, droppedWordless dropped,
      extendsWordless extended, droppedWordless implemented, wordlessKind opens rfl,
      membersWordless members, wordlessKind closes rfl]) own word
  | block opens statements closes =>
    exact wordlessTakes (by simp [wordlessKind opens rfl, statementsWordless statements,
      wordlessKind closes rfl]) own word
  | expressionStatement semicolon => exact wordlessTakes (by simp [maybeWordless semicolon rfl]) own word
  | branch kind tested stated otherwise =>
    exact wordlessTakes (by simp [wordlessKind kind rfl, testedWordless tested, statedWordless stated,
      otherwiseWordless otherwise]) own word
  | repeated kind tested stated =>
    exact wordlessTakes (by simp [wordlessKind kind rfl, testedWordless tested, statedWordless stated])
      own word
  | done kind stated again tested semicolon =>
    exact wordlessTakes (by simp [wordlessKind kind rfl, statedWordless stated, wordlessKind again rfl,
      testedWordless tested, maybeWordless semicolon rfl]) own word
  | exits exit valued semicolon =>
    exact wordlessTakes (by simp [exitsOther exit, perhapsWordless valued, maybeWordless semicolon rfl])
      own word
  | jumps jump labelled semicolon =>
    exact wordlessTakes (by simp [jumpsOther jump, perhapsWordless labelled,
      maybeWordless semicolon rfl]) own word
  | handler kind catches =>
    exact wordlessTakes (by simp [wordlessKind kind rfl, catchesWordless catches]) own word
  | attempt kind handles finalizes =>
    exact wordlessTakes (by simp [wordlessKind kind rfl, perhapsWordless handles,
      behindWordless finalizes rfl]) own word
  | file statements => exact wordlessTakes (statementsWordless statements) own word

end
end Phrase

namespace Program
open Phrase

/- One of the words in a text without faults begins a suspension, or is a name, or follows the word
of a loop, or is passed over with a type. -/
theorem suspensionWords {fileName : String} {text : List Char}
    (clean : (parse fileName text).errors = []) {k : Token} (own : k ∈ tokensOf text)
    (word : suspends k.kind = true) :
    let p := parse fileName text
    ∃ i n c row, p.tree.Under p.root i ∧ Composed p.tree i n c row ∧
      (Takes k c n.kind n.payload? row ∨ .skipped k ∈ row) := by
  intro p
  have plain : k.isEnd = false := by
    refine beq_eq_false_iff_ne.mpr fun ends => ?_
    rw [ends] at word
    cases word
  obtain ⟨i, n, c, row, under, composed, has⟩ := tokensBelong clean own plain
  exact ⟨i, n, c, row, under, composed, has.imp_left fun own => madeTakes composed.made own word⟩

/- The word of a loop is in no suspension. -/
example :
    let p := parse "input.ts" "async function f(xs) { for await (const x of xs) g(x); }".toList
    p.errors = [] ∧ p.tree.suspensions p.root = [] := by decide +kernel

end Program
end CallGuard
