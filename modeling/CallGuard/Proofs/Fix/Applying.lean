import CallGuard.Proofs.Token.Row
import CallGuard.Fix.Edit

/-! What becomes of a list of fixes. Fixes are accepted as wholes, but the edits of those accepted are
made one by one, and an edit is left out if it splits a character or overlaps one that was made. So
every accepted fix is carried out in full exactly if its own edits fit the text and one another. -/
namespace CallGuard
open Text (Boundary byteLength)

namespace TextEdit

def stop (e : TextEdit) : Nat := e.start + e.length

/- Both ends fall between two characters of the text. -/
def Fits (text : List Char) (e : TextEdit) : Prop := Boundary text e.start ∧ Boundary text e.stop

/- Neither reaches into the other. -/
def Clear (a b : TextEdit) : Prop := Fix.overlaps a b = false

/- The rest of a text, from offset `pos` on, with every edit of a row carried out at its place. -/
inductive Carried : Nat → List Char → List TextEdit → List Char → Prop where
  | nil {pos : Nat} {rest : List Char} : Carried pos rest [] rest
  | cons {pos : Nat} {e : TextEdit} {es : List TextEdit} {kept cut after done : List Char}
      (place : pos + byteLength kept = e.start) (width : byteLength cut = e.length)
      (next : Carried e.stop after es done) :
      Carried pos (kept ++ (cut ++ after)) (e :: es) (kept ++ (e.newText.toList ++ done))

section
variable {text front rest kept cut after done : List Char} {pos : Nat} {e a b : TextEdit}
  {reach : Nat} {es edits : List TextEdit}

/-! ### One edit -/

theorem splitBoundary {n : Nat} : (∃ halves, Text.splitAt? n text = some halves) ↔ Boundary text n := by
  constructor
  · rintro ⟨⟨before, after⟩, split⟩
    obtain ⟨whole, width⟩ := Text.splitAtSpec split
    exact ⟨before, after, whole, width⟩
  · rintro ⟨before, after, rfl, rfl⟩
    exact ⟨_, Text.splitAtAppend before after⟩

theorem aroundCuts : e.around? pos rest = some (kept, after) ↔
    ∃ cut, rest = kept ++ (cut ++ after) ∧ pos + byteLength kept = e.start ∧ byteLength cut = e.length := by
  unfold around?
  constructor
  · intro around
    split at around
    · cases around
    · rename_i late
      obtain ⟨⟨before, more⟩, first, second⟩ := Option.bind_eq_some_iff.mp around
      obtain ⟨⟨cut, behind⟩, split, same⟩ := Option.bind_eq_some_iff.mp second
      cases same
      obtain ⟨rfl, width⟩ := Text.splitAtSpec first
      obtain ⟨rfl, width'⟩ := Text.splitAtSpec split
      exact ⟨cut, rfl, by omega, width'⟩
  · rintro ⟨cut, rfl, place, width⟩
    have here : e.start - pos = byteLength kept := by omega
    rw [if_neg (by omega), here, Text.splitAtAppend]
    show (Text.splitAt? e.length (cut ++ after)).bind _ = _
    rw [← width, Text.splitAtAppend]
    rfl

/- A cut that is not inside a front of the text is a cut of what is behind it. -/
theorem boundaryBehind {n : Nat} (behind : byteLength front ≤ n) : Boundary (front ++ rest) n ↔
    ∃ kept after, rest = kept ++ after ∧ byteLength front + byteLength kept = n := by
  constructor
  · rintro ⟨before, after, same, rfl⟩
    rcases List.append_eq_append_iff.mp same with ⟨more, rfl, rfl⟩ | ⟨more, rfl, rfl⟩
    · rw [Text.byteLengthAppend] at behind ⊢
      exact ⟨[], rest, rfl, by rw [byteLength]; omega⟩
    · exact ⟨more, after, rfl, (Text.byteLengthAppend ..).symm⟩
  · rintro ⟨kept, after, rfl, rfl⟩
    exact ⟨front ++ kept, after, List.append_assoc .., Text.byteLengthAppend ..⟩

/-! ### A row of edits -/

theorem carriedMade (carried : Carried pos rest es done) : applyFrom pos rest es = ⟨done, es.length, 0⟩ := by
  induction carried with
  | nil => rfl
  | @cons pos e es kept cut after done place width _ ih =>
    have made : applyFrom (e.start + e.length) after es = ⟨done, es.length, 0⟩ := ih
    rw [applyFrom, aroundCuts.mpr ⟨cut, rfl, place, width⟩]
    simp only [made]
    rfl

/- A row of edits can be carried out if each fits the text and stands behind the one before it. -/
theorem carriedIff : (∃ done, Carried (byteLength front) rest es done) ↔
    (∀ e ∈ es, byteLength front ≤ e.start ∧ e.Fits (front ++ rest)) ∧
      es.Pairwise fun a b => a.stop ≤ b.start := by
  induction es generalizing front rest with
  | nil => exact ⟨fun _ => ⟨nofun, .nil⟩, fun _ => ⟨rest, .nil⟩⟩
  | cons e es ih =>
    have behind {kept cut : List Char} (place : byteLength front + byteLength kept = e.start)
        (width : byteLength cut = e.length) : byteLength (front ++ (kept ++ cut)) = e.stop := by
      rw [Text.byteLengthAppend, Text.byteLengthAppend, ← Nat.add_assoc, place, width, stop]
    constructor
    · rintro ⟨_, carried⟩
      cases carried with
      | @cons _ _ _ kept cut after done place width next =>
        rw [← behind place width] at next
        obtain ⟨fits, apart⟩ := ih.mp ⟨done, next⟩
        simp only [List.append_assoc] at fits
        have late : byteLength front ≤ e.start := by omega
        refine ⟨List.forall_mem_cons.mpr ⟨⟨late, (boundaryBehind late).mpr ⟨kept, _, rfl, place⟩, ?_⟩,
          fun a own => ⟨?_, (fits a own).2⟩⟩, .cons (fun a own => ?_) apart⟩
        · exact ⟨front ++ (kept ++ cut), after, by simp, behind place width⟩
        · exact Nat.le_trans (by simp) (fits a own).1
        · exact Nat.le_trans (Nat.le_of_eq (behind place width).symm) (fits a own).1
    · rintro ⟨fits, apart⟩
      obtain ⟨⟨late, begins, ends⟩, fits⟩ := List.forall_mem_cons.mp fits
      obtain ⟨first, apart⟩ := List.pairwise_cons.mp apart
      obtain ⟨kept, more, rfl, place⟩ := (boundaryBehind late).mp begins
      rw [← List.append_assoc] at ends
      have here : byteLength (front ++ kept) = e.start := (Text.byteLengthAppend ..).trans place
      obtain ⟨cut, after, rfl, width⟩ := (boundaryBehind (here ▸ Nat.le_add_right ..)).mp ends
      have width : byteLength cut = e.length := by rw [here, TextEdit.stop] at width; omega
      have next : ∃ done, Carried (byteLength (front ++ (kept ++ cut))) after es done :=
        ih.mpr ⟨fun a own => ⟨behind place width ▸ first a own, by simpa using (fits a own).2⟩, apart⟩
      obtain ⟨done, next⟩ := next
      exact ⟨_, .cons place width (behind place width ▸ next)⟩

/-! ### The edits made -/

instance {text : List Char} {n : Nat} : Decidable (Boundary text n) :=
  decidable_of_iff ((Text.splitAt? n text).isSome = true) (Option.isSome_iff_exists.trans splitBoundary)

instance {text : List Char} {e : TextEdit} : Decidable (e.Fits text) := instDecidableAnd

/- The edits of a row that are made: those that fit the text and begin no earlier than the last one
that was made ends. -/
def chosen (text : List Char) : (reach : Nat) → List TextEdit → List TextEdit
  | _, [] => []
  | reach, e :: es =>
    if reach ≤ e.start ∧ e.Fits text then e :: chosen text e.stop es else chosen text reach es

theorem chosenPart : (chosen text reach es).Sublist es := by
  induction es generalizing reach with
  | nil => exact .slnil
  | cons e es ih =>
    rw [chosen]
    split
    · exact .cons_cons e ih
    · exact .cons e ih

/- An edit can be made behind a front of the text if it begins behind it and fits the whole text. -/
theorem aroundFits : (∃ halves, e.around? (byteLength front) rest = some halves) ↔
    byteLength front ≤ e.start ∧ e.Fits (front ++ rest) := by
  have alone := @carriedIff front rest [e]
  simp only [List.forall_mem_singleton, List.pairwise_singleton, and_true] at alone
  rw [← alone]
  constructor
  · rintro ⟨⟨kept, after⟩, around⟩
    obtain ⟨cut, rfl, place, width⟩ := aroundCuts.mp around
    exact ⟨_, .cons place width .nil⟩
  · rintro ⟨_, carried⟩
    cases carried with
    | cons place width _ => exact ⟨_, aroundCuts.mpr ⟨_, rfl, place, width⟩⟩

theorem applyFromChosen (front rest : List Char) (es : List TextEdit) :
    let r := applyFrom (byteLength front) rest es
    let made := chosen (front ++ rest) (byteLength front) es
    Carried (byteLength front) rest made r.text ∧ r.applied = made.length ∧
      r.applied + r.skipped = es.length := by
  induction es generalizing front rest with
  | nil => exact ⟨.nil, rfl, rfl⟩
  | cons e es ih =>
    cases around : e.around? (byteLength front) rest with
    | none =>
      have refused : ¬ (byteLength front ≤ e.start ∧ e.Fits (front ++ rest)) := by
        rw [← aroundFits, around]
        simp
      obtain ⟨carried, count, all⟩ := ih front rest
      rw [chosen, if_neg refused, applyFrom, around]
      exact ⟨carried, count, congrArg (· + 1) all⟩
    | some halves =>
      have accepted := aroundFits.mp ⟨halves, around⟩
      obtain ⟨kept, after⟩ := halves
      obtain ⟨cut, rfl, place, width⟩ := aroundCuts.mp around
      have reach : byteLength (front ++ (kept ++ cut)) = e.stop := by
        rw [Text.byteLengthAppend, Text.byteLengthAppend, ← Nat.add_assoc, place, width, stop]
      have whole : front ++ (kept ++ cut) ++ after = front ++ (kept ++ (cut ++ after)) := by simp
      obtain ⟨carried, count, all⟩ := ih (front ++ (kept ++ cut)) after
      rw [reach, whole] at carried count
      rw [reach] at all
      rw [chosen, if_pos accepted, applyFrom, around]
      exact ⟨.cons place width carried, congrArg (· + 1) count,
        (Nat.add_right_comm ..).trans (congrArg (· + 1) all)⟩

theorem applyChosen (text : List Char) (es : List TextEdit) :
    let r := applyFrom 0 text es
    Carried 0 text (chosen text 0 es) r.text ∧ r.applied = (chosen text 0 es).length ∧
      r.applied + r.skipped = es.length :=
  applyFromChosen [] text es

/-! ### Any order -/

theorem clearSymm (apart : Clear a b) : Clear b a := by
  rw [Clear, Fix.overlaps, Bool.and_comm]
  exact apart

theorem sortedPlaces (es : List TextEdit) : (es.mergeSort before).Pairwise fun a b => before a b := by
  refine List.pairwise_mergeSort (fun a b c one two => ?_) (fun a b => ?_) es
  all_goals
    simp only [before, Bool.or_eq_true, Bool.and_eq_true, decide_eq_true_eq, beq_iff_eq] at *
    omega

/- Of two edits in order, the first ends where the other begins or before, unless they overlap. -/
theorem orderedClear (order : before a b) : a.stop ≤ b.start ↔ Clear a b := by
  simp only [before, Bool.or_eq_true, Bool.and_eq_true, decide_eq_true_eq, beq_iff_eq] at order
  simp only [Clear, Fix.overlaps, stop, Bool.and_eq_false_iff, decide_eq_false_iff_not]
  omega

theorem sortedCarried : (∃ done, Carried 0 text (edits.mergeSort before) done) ↔
    (∀ e ∈ edits, e.Fits text) ∧ edits.Pairwise Clear := by
  have same := List.mergeSort_perm edits before
  have row : (edits.mergeSort before).Pairwise (fun a b => a.stop ≤ b.start) ↔ edits.Pairwise Clear := by
    rw [← same.pairwise_iff clearSymm]
    exact ⟨fun row => ((sortedPlaces edits).and row).imp fun both => (orderedClear both.1).mp both.2,
      fun row => ((sortedPlaces edits).and row).imp fun both => (orderedClear both.1).mpr both.2⟩
  rw [← row]
  have whole : (∃ done, Carried (byteLength []) text (edits.mergeSort before) done) ↔ _ := carriedIff
  simpa [byteLength, same.mem_iff] using whole

theorem stopsKnown (small : ∀ e ∈ edits, e.stop ≤ Offset.max) :
    edits.mapM stop? = some (edits.map stop) := by
  induction edits with
  | nil => rfl
  | cons e edits ih =>
    obtain ⟨here, small⟩ := List.forall_mem_cons.mp small
    have own : e.stop? = some e.stop := if_pos here
    rw [List.mapM_cons, own, ih small]
    rfl

/- What is made of edits is a part of them, in the order of their places; it is all of them exactly if
they fit the text and one another. -/
theorem applyAllCarries (text : List Char) (small : ∀ e ∈ edits, e.stop ≤ Offset.max) :
    ∃ made r, applyAll text edits = .ok r ∧ made.Sublist (edits.mergeSort before) ∧
      Carried 0 text made r.text ∧ made.length = r.applied ∧ r.applied + r.skipped = edits.length ∧
      (made = edits.mergeSort before ↔ (∀ e ∈ edits, e.Fits text) ∧ edits.Pairwise Clear) := by
  obtain ⟨carried, count, all⟩ := applyChosen text (edits.mergeSort before)
  refine ⟨_, applyFrom 0 text (edits.mergeSort before), ?_, chosenPart, carried, count.symm,
    all.trans (List.length_mergeSort edits), fun same => ?_, fun fits => ?_⟩
  · rw [applyAll, stopsKnown small]
    rfl
  · exact sortedCarried.mp ⟨_, same ▸ carried⟩
  · obtain ⟨done, whole⟩ := sortedCarried.mpr fits
    refine chosenPart.eq_of_length ?_
    rw [← count, carriedMade whole]

end
end TextEdit

namespace Fix
open TextEdit (Carried Clear)

/- The edits of the fix fit the text and one another. -/
structure Sound (text : List Char) (edits : List TextEdit) : Prop where
  fits : ∀ e ∈ edits, e.Fits text
  apart : edits.Pairwise Clear

/- No edit reaches past the end of the text or overlaps one of those accepted before. -/
def Agrees (length : Nat) (accepted edits : List TextEdit) : Prop :=
  ∀ e ∈ edits, e.stop ≤ length ∧ ∀ a ∈ accepted, Clear e a

/- Which fixes of a list are taken, one after the other, when `accepted` has been accepted before. -/
inductive Takes (length : Nat) : List TextEdit → List Fix → List Fix → Prop where
  | nil {accepted : List TextEdit} : Takes length accepted [] []
  | take {accepted : List TextEdit} {f : Fix} {fs taken : List Fix}
      (agrees : Agrees length accepted f.edits) (rest : Takes length (accepted ++ f.edits) fs taken) :
      Takes length accepted (f :: fs) (f :: taken)
  | leave {accepted : List TextEdit} {f : Fix} {fs taken : List Fix}
      (clashes : ¬ Agrees length accepted f.edits) (rest : Takes length accepted fs taken) :
      Takes length accepted (f :: fs) taken

/- No edit of one fix overlaps an edit of the other. -/
def Distant (edits more : List TextEdit) : Prop := ∀ a ∈ edits, ∀ e ∈ more, Clear e a

variable {text : List Char} {accepted edits more : List TextEdit} {fixes taken : List Fix} {length : Nat}

theorem takenPart (takes : Takes length accepted fixes taken) : taken.Sublist fixes := by
  induction takes with
  | nil => exact .slnil
  | take _ _ ih => exact .cons_cons _ ih
  | leave _ _ ih => exact .cons _ ih

theorem conflictsAny (length : Nat) (accepted : List TextEdit) (small : ∀ e ∈ edits, e.stop ≤ Offset.max) :
    conflicts length accepted edits =
      .ok (edits.any fun e => decide (e.stop > length) || accepted.any (overlaps e)) := by
  induction edits with
  | nil => rfl
  | cons e edits ih =>
    obtain ⟨here, small⟩ := List.forall_mem_cons.mp small
    have own : e.stop? = some e.stop := if_pos here
    rw [conflicts, own, List.any_cons]
    show (if (decide (e.stop > length) || accepted.any (overlaps e)) = true then _ else _) = _
    cases decide (e.stop > length) || accepted.any (overlaps e) with
    | true => rfl
    | false => exact ih small

theorem agreesAny : Agrees length accepted edits ↔
    (edits.any fun e => decide (e.stop > length) || accepted.any (overlaps e)) = false := by
  simp [Agrees, Clear]

/- Each fix is counted once, among those taken or among those left out. -/
theorem selectTakes (length : Nat) (s : Selection) (small : ∀ f ∈ fixes, ∀ e ∈ f.edits, e.stop ≤ Offset.max) :
    ∃ taken, Takes length s.edits fixes taken ∧ select length s fixes =
      .ok ⟨s.edits ++ taken.flatMap (·.edits), s.applied + taken.length,
        s.skipped + (fixes.length - taken.length)⟩ := by
  induction fixes generalizing s with
  | nil => exact ⟨[], .nil, by simp [select]; rfl⟩
  | cons f fixes ih =>
    obtain ⟨here, small⟩ := List.forall_mem_cons.mp small
    rw [select, conflictsAny length s.edits here]
    have agrees := @agreesAny s.edits f.edits length
    generalize (f.edits.any _) = clash at agrees
    cases clash with
    | true =>
      obtain ⟨taken, takes, answer⟩ := ih { s with skipped := s.skipped + 1 } small
      refine ⟨taken, .leave (by simp [agrees]) takes, answer.trans ?_⟩
      rw [List.length_cons, Nat.succ_sub (takenPart takes).length_le]
      simp only [Nat.succ_eq_add_one, Nat.add_assoc, Nat.add_comm 1]
    | false =>
      obtain ⟨taken, takes, answer⟩ := ih ⟨s.edits ++ f.edits, s.applied + 1, s.skipped⟩ small
      refine ⟨f :: taken, .take (agrees.mpr rfl) takes, answer.trans ?_⟩
      simp only [List.flatMap_cons, List.append_assoc, List.length_cons, Nat.add_sub_add_right]
      congr 2
      omega

/- Edits of different fixes that were taken never overlap. -/
theorem takenClear (takes : Takes length accepted fixes taken) (before : accepted.Pairwise Clear) :
    (accepted ++ taken.flatMap (·.edits)).Pairwise Clear ↔ ∀ f ∈ taken, f.edits.Pairwise Clear := by
  induction takes with
  | nil => simpa using before
  | leave _ _ ih => exact ih before
  | @take accepted f fs taken agrees _ ih =>
    have cross (a : TextEdit) (old : a ∈ accepted) (e : TextEdit) (own : e ∈ f.edits) : Clear a e :=
      TextEdit.clearSymm ((agrees e own).2 a old)
    rw [List.flatMap_cons, ← List.append_assoc, List.forall_mem_cons]
    constructor
    · intro all
      have here := (List.pairwise_append.mp (List.pairwise_append.mp all).1).2.1
      exact ⟨here, (ih (List.pairwise_append.mpr ⟨before, here, cross⟩)).mp all⟩
    · rintro ⟨here, rest⟩
      exact (ih (List.pairwise_append.mpr ⟨before, here, cross⟩)).mpr rest

theorem agreesAppend : Agrees length (accepted ++ more) edits ↔
    Agrees length accepted edits ∧ Distant more edits := by
  simp only [Agrees, Distant, List.mem_append, or_imp, forall_and]
  exact ⟨fun ⟨one, two, three⟩ => ⟨⟨one, two⟩, fun a old e own => three e own a old⟩,
    fun ⟨⟨one, two⟩, three⟩ => ⟨one, two, fun e own a old => three a old e own⟩⟩

theorem takesAll : Takes length accepted fixes fixes ↔
    (∀ f ∈ fixes, Agrees length accepted f.edits) ∧ fixes.Pairwise fun f g => Distant f.edits g.edits := by
  induction fixes generalizing accepted with
  | nil => exact ⟨fun _ => ⟨nofun, .nil⟩, fun _ => .nil⟩
  | cons f fixes ih =>
    rw [List.forall_mem_cons, List.pairwise_cons]
    constructor
    · intro takes
      cases takes with
      | take agrees rest =>
        obtain ⟨all, apart⟩ := ih.mp rest
        simp only [agreesAppend] at all
        exact ⟨⟨agrees, fun g own => (all g own).1⟩, fun g own => (all g own).2, apart⟩
      | leave _ rest =>
        have shorter := (takenPart rest).length_le
        rw [List.length_cons] at shorter
        omega
    · rintro ⟨⟨agrees, all⟩, first, apart⟩
      exact .take agrees (ih.mpr ⟨fun g own => agreesAppend.mpr ⟨all g own, first g own⟩, apart⟩)

theorem takesOnce {other : List Fix} (one : Takes length accepted fixes taken)
    (two : Takes length accepted fixes other) : taken = other := by
  induction one generalizing other with
  | nil => cases two; rfl
  | take agrees _ ih =>
    cases two with
    | take _ rest => rw [ih rest]
    | leave clashes _ => exact absurd agrees clashes
  | leave clashes _ ih =>
    cases two with
    | take agrees _ => exact absurd agrees clashes
    | leave _ rest => exact ih rest

/- Every fix is counted once, as applied or as left out. What is made is a part of the edits of the
fixes that are counted as applied; it is all of them exactly if each of these fixes is sound. -/
theorem applyAllWhole (text : List Char) (small : ∀ f ∈ fixes, ∀ e ∈ f.edits, e.stop ≤ Offset.max) :
    ∃ taken made r, applyAll text fixes = .ok r ∧ Takes (byteLength text) [] fixes taken ∧
      r.applied = taken.length ∧ r.applied + r.skipped = fixes.length ∧
      made.Sublist ((taken.flatMap (·.edits)).mergeSort TextEdit.before) ∧ Carried 0 text made r.text ∧
      (made = (taken.flatMap (·.edits)).mergeSort TextEdit.before ↔ ∀ f ∈ taken, Sound text f.edits) := by
  obtain ⟨taken, takes, chosen⟩ := selectTakes (byteLength text) ⟨[], 0, 0⟩ small
  have near : ∀ e ∈ taken.flatMap (·.edits), e.stop ≤ Offset.max := by
    intro e own
    obtain ⟨f, member, own⟩ := List.mem_flatMap.mp own
    exact small f ((takenPart takes).subset member) e own
  obtain ⟨made, r, answer, kept, carried, _, _, whole⟩ := TextEdit.applyAllCarries text near
  refine ⟨taken, made, ⟨r.text, taken.length, fixes.length - taken.length⟩, ?_, takes, rfl,
    Nat.add_sub_of_le (takenPart takes).length_le, kept, carried, ?_⟩
  · rw [applyAll, chosen]
    simp only [List.nil_append, Nat.zero_add]
    show (TextEdit.applyAll text _).bind _ = _
    rw [answer]
    rfl
  · have apart := takenClear takes .nil
    rw [List.nil_append] at apart
    rw [whole, apart]
    simp only [List.mem_flatMap]
    exact ⟨fun ⟨fits, apart⟩ f own => ⟨fun e mine => fits e ⟨f, own, mine⟩, apart f own⟩,
      fun sound => ⟨fun e ⟨f, own, mine⟩ => (sound f own).fits e mine, fun f own => (sound f own).apart⟩⟩

/- The fix is counted as applied, but its first edit splits a character and is not made. -/
example : (applyAll "é!".toList [⟨"", "", [⟨1, 0, "x"⟩, ⟨2, 0, "y"⟩]⟩]).toOption =
    some ⟨"éy!".toList, 1, 0⟩ := by cbv

end Fix
end CallGuard
