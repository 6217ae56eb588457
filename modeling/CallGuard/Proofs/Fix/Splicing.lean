import CallGuard.Proofs.Fix.Applying
import Mathlib.Data.List.Pairwise

/-! What a text becomes under a list of edits. The edits that are made are chosen one after the other, in
the order of their places; the text they make is told place by place, without any order: what is inserted
at a place, and whether the character that stands there is replaced. -/
namespace CallGuard.TextEdit
open Text (Boundary byteLength)

/- What is written at a place, in front of the character that stands there. -/
def inserted (made : List TextEdit) (pos : Nat) : List Char :=
  (made.filter (·.start == pos)).flatMap (·.newText.toList)

/- Whether the character at a place is replaced. -/
def covered (made : List TextEdit) (pos : Nat) : Bool := made.any fun e => e.start ≤ pos && pos < e.stop

/- A part of the text that stands at `pos`, with all edits made at once. -/
def splicedFrom (made : List TextEdit) : (pos : Nat) → List Char → List Char
  | _, [] => []
  | pos, c :: cs =>
    inserted made pos ++ ((if covered made pos then [] else [c]) ++ splicedFrom made (pos + c.utf8Size) cs)

/- The text with all edits made at once. -/
def spliced (made : List TextEdit) (text : List Char) : List Char :=
  splicedFrom made 0 text ++ inserted made (byteLength text)

/- The bytes that edits replace. -/
def replacedLength : List TextEdit → Nat
  | [] => 0
  | e :: es => e.length + replacedLength es

/- The bytes that edits insert. -/
def insertedLength : List TextEdit → Nat
  | [] => 0
  | e :: es => byteLength e.newText.toList + insertedLength es

/- Two edits at one place that replace as much. -/
def Tied (a b : TextEdit) : Prop := a.start = b.start ∧ a.length = b.length

instance {a b : TextEdit} : Decidable (Tied a b) := instDecidableAnd

section
variable {front rest cut after done : List Char} {pos : Nat} {e : TextEdit}
  {made edits other : List TextEdit}

theorem splicedAppend : splicedFrom made pos (front ++ rest) =
    splicedFrom made pos front ++ splicedFrom made (pos + byteLength front) rest := by
  induction front generalizing pos with
  | nil => rfl
  | cons c front ih =>
    rw [List.cons_append, splicedFrom, splicedFrom, ih, byteLength, Nat.add_assoc]
    simp only [List.append_assoc]

theorem insertedNothing (late : ∀ a ∈ made, pos < a.start) : inserted made pos = [] := by
  refine List.flatMap_eq_nil_iff.mpr fun a own => ?_
  obtain ⟨member, here⟩ := List.mem_filter.mp own
  exact absurd (late a member) (Nat.not_lt.mpr (Nat.le_of_eq (beq_iff_eq.mp here)))

/- Nothing happens in front of all edits. -/
theorem splicedBefore (behind : ∀ e ∈ made, pos + byteLength front ≤ e.start) :
    splicedFrom made pos front = front := by
  induction front generalizing pos with
  | nil => rfl
  | cons c front ih =>
    have wide := c.utf8Size_pos
    simp only [byteLength] at behind
    have nothing : inserted made pos = [] :=
      insertedNothing fun e member => Nat.lt_of_lt_of_le (by omega) (behind e member)
    have bare : covered made pos = false := by
      refine List.any_eq_false.mpr fun e member => ?_
      have late := behind e member
      simp
      omega
    rw [splicedFrom, nothing, bare, ih fun e member => Nat.le_trans (by omega) (behind e member)]
    rfl

/- Behind an edit it does not matter any more. -/
theorem insertedPast (started : e.start < pos) : inserted (e :: made) pos = inserted made pos := by
  rw [inserted, List.filter_cons_of_neg (by simpa using Nat.ne_of_lt started), inserted]

theorem splicedPast (started : e.start < pos) (ended : e.stop ≤ pos) :
    splicedFrom (e :: made) pos rest = splicedFrom made pos rest := by
  induction rest generalizing pos with
  | nil => rfl
  | cons c rest ih =>
    have bare : covered (e :: made) pos = covered made pos := by
      rw [covered, List.any_cons, decide_eq_false (Nat.not_lt.mpr ended), Bool.and_false, Bool.false_or, covered]
    rw [splicedFrom, insertedPast started, bare, ih (by omega) (by omega), splicedFrom]

theorem insertedHere (made : List TextEdit) :
    inserted (e :: made) e.start = e.newText.toList ++ inserted made e.start := by
  rw [inserted, List.filter_cons_of_pos (by simp), List.flatMap_cons, inserted]

/- Characters that an edit replaces vanish, as long as no other edit begins among them. -/
theorem splicedCovered (starts : e.start < pos) (within : pos + byteLength cut ≤ e.stop)
    (behind : ∀ a ∈ made, e.stop ≤ a.start) : splicedFrom (e :: made) pos cut = [] := by
  induction cut generalizing pos with
  | nil => rfl
  | cons c cut ih =>
    have wide := c.utf8Size_pos
    simp only [byteLength] at within
    have nothing : inserted (e :: made) pos = [] := by
      rw [insertedPast starts]
      exact insertedNothing fun a member => Nat.lt_of_lt_of_le (by omega) (behind a member)
    have own : covered (e :: made) pos = true := by
      rw [covered, List.any_cons, decide_eq_true (Nat.le_of_lt starts), decide_eq_true (by omega)]
      rfl
    rw [splicedFrom, nothing, own, ih (by omega) (by omega)]
    rfl

/- An edit at the place at hand, and the text behind what it replaces. -/
theorem splicedHere (width : byteLength cut = e.length) (behind : ∀ a ∈ made, e.stop ≤ a.start) :
    splicedFrom (e :: made) e.start (cut ++ after) ++ inserted (e :: made) (e.stop + byteLength after) =
      e.newText.toList ++ (splicedFrom made e.stop after ++ inserted made (e.stop + byteLength after)) := by
  cases cut with
  | nil =>
    have empty : e.stop = e.start := by rw [stop, ← width]; rfl
    rw [List.nil_append, empty]
    cases after with
    | nil => exact insertedHere made
    | cons c after =>
      have wide := c.utf8Size_pos
      have bare : covered (e :: made) e.start = covered made e.start := by
        rw [covered, List.any_cons, empty, decide_eq_false (Nat.lt_irrefl _), Bool.and_false, Bool.false_or,
          covered]
      rw [splicedFrom, splicedFrom, insertedHere, bare, splicedPast (by omega) (by omega),
        insertedPast (by rw [byteLength]; omega)]
      simp only [List.append_assoc]
  | cons c cut =>
    have wide := c.utf8Size_pos
    rw [byteLength] at width
    have further : e.start < e.stop := by rw [stop]; omega
    have nothing : inserted made e.start = [] :=
      insertedNothing fun a member => Nat.lt_of_lt_of_le further (behind a member)
    have own : covered (e :: made) e.start = true := by
      rw [covered, List.any_cons, decide_eq_true (Nat.le_refl _), decide_eq_true further]
      rfl
    have reach : e.start + c.utf8Size + byteLength cut = e.stop := by rw [stop]; omega
    rw [List.cons_append, splicedFrom, insertedHere, nothing, own, splicedAppend, reach,
      splicedCovered (by omega) (by omega) behind, splicedPast further (Nat.le_refl _),
      insertedPast (by omega)]
    simp

/- A row of edits that is carried out makes the text that the edits make at once. -/
theorem carriedSpliced (carried : Carried pos rest made done) :
    done = splicedFrom made pos rest ++ inserted made (pos + byteLength rest) ∧
      ∀ e ∈ made, pos ≤ e.start := by
  induction carried with
  | @nil pos rest =>
    refine ⟨?_, List.forall_mem_nil _⟩
    rw [splicedBefore (List.forall_mem_nil _)]
    exact (List.append_nil rest).symm
  | @cons pos e made kept cut after done place width _ ih =>
    obtain ⟨same, behind⟩ := ih
    have late : ∀ a ∈ e :: made, pos + byteLength kept ≤ a.start := by
      refine List.forall_mem_cons.mpr ⟨Nat.le_of_eq place, fun a member => ?_⟩
      exact Nat.le_trans (by rw [place, stop]; omega) (behind a member)
    have last : pos + byteLength (kept ++ (cut ++ after)) = e.stop + byteLength after := by
      rw [Text.byteLengthAppend, Text.byteLengthAppend, width, stop]
      omega
    refine ⟨?_, fun a member => Nat.le_trans (Nat.le_add_right ..) (late a member)⟩
    rw [splicedAppend, splicedBefore late, place, last, List.append_assoc, splicedHere width behind, ← same]

/- What is replaced goes, and what is inserted comes. -/
theorem carriedLength (carried : Carried pos rest made done) :
    byteLength done + replacedLength made = byteLength rest + insertedLength made := by
  induction carried with
  | nil => rfl
  | cons _ width _ ih =>
    simp only [Text.byteLengthAppend, replacedLength, insertedLength, width]
    omega

/-! ### Any order -/

theorem sortedAlike (apart : edits.Pairwise fun a b => ¬ Tied a b) (same : other.Perm edits) :
    other.mergeSort before = edits.mergeSort before := by
  have symm : Std.Symm fun a b : TextEdit => ¬ Tied a b := ⟨fun _ _ free tie => free ⟨tie.1.symm, tie.2.symm⟩⟩
  refine ((List.mergeSort_perm other before).trans (same.trans (List.mergeSort_perm edits before).symm)).eq_of_pairwise
    (fun a b one two first second => Classical.byContradiction fun differ => ?_) (sortedPlaces other)
      (sortedPlaces edits)
  have inOther := same.subset ((List.mergeSort_perm other before).subset one)
  have inEdits := (List.mergeSort_perm edits before).subset two
  refine apart.forall inOther inEdits differ ?_
  simp only [before, Bool.or_eq_true, Bool.and_eq_true, decide_eq_true_eq, beq_iff_eq] at first second
  exact ⟨by omega, by omega⟩

/- The edits made are chosen one after the other, and all others are counted as left out and change
nothing. The text is what those that were made make of it at once. All are made if they fit the text and
one another, and without ties the order of the list does not matter. -/
theorem editsSpliced (text : List Char) (small : ∀ e ∈ edits, e.stop ≤ Offset.max) :
    let made := chosen text 0 (edits.mergeSort before)
    ∃ r, applyAll text edits = .ok r ∧ r.text = spliced made text ∧ r.applied = made.length ∧
      r.applied + r.skipped = edits.length ∧ applyAll text made = .ok ⟨r.text, r.applied, 0⟩ ∧
      byteLength r.text + replacedLength made = byteLength text + insertedLength made ∧
      ((∀ e ∈ edits, e.Fits text) → edits.Pairwise Clear → r.applied = edits.length) ∧
      ((edits.Pairwise fun a b => ¬ Tied a b) → ∀ other : List TextEdit, other.Perm edits →
        applyAll text other = .ok r) := by
  intro made
  obtain ⟨carried, count, all⟩ := applyChosen text (edits.mergeSort before)
  have part : made.Sublist (edits.mergeSort before) := chosenPart
  have answer (row : List TextEdit) (low : ∀ e ∈ row, e.stop ≤ Offset.max) :
      applyAll text row = .ok (applyFrom 0 text (row.mergeSort before)) := by
    rw [applyAll, stopsKnown low]
    rfl
  refine ⟨_, answer edits small, ?_, count, all.trans (List.length_mergeSort edits), ?_, carriedLength carried,
    fun fits apart => ?_, fun apart other same => ?_⟩
  · have same := (carriedSpliced carried).1
    rwa [Nat.zero_add] at same
  · have low : ∀ e ∈ made, e.stop ≤ Offset.max := fun e member =>
      small e ((List.mergeSort_perm edits before).subset (part.subset member))
    have sorted : made.mergeSort before = made :=
      List.mergeSort_of_pairwise ((sortedPlaces edits).sublist part)
    rw [answer made low, sorted, show applyFrom 0 text made = _ from carriedMade carried, count]
  · obtain ⟨done, whole⟩ := sortedCarried.mpr ⟨fits, apart⟩
    rw [carriedMade whole, List.length_mergeSort]
  · rw [answer other fun e member => small e (same.subset member), sortedAlike apart same]

theorem overlapSpliced :
    (∀ e ∈ [⟨1, 2, "X"⟩, ⟨2, 1, "Y"⟩, ⟨1, 0, "é"⟩, ⟨4, 1, "Z"⟩, (⟨9, 0, "W"⟩ : TextEdit)], e.stop ≤ Offset.max) ∧
      ∃ r, applyAll "abcé".toList [⟨1, 2, "X"⟩, ⟨2, 1, "Y"⟩, ⟨1, 0, "é"⟩, ⟨4, 1, "Z"⟩, ⟨9, 0, "W"⟩] = .ok r ∧
        r.text = "aéXé".toList ∧ r.applied = 2 ∧ r.skipped = 3 := by
  let edits : List TextEdit := [⟨1, 2, "X"⟩, ⟨2, 1, "Y"⟩, ⟨1, 0, "é"⟩, ⟨4, 1, "Z"⟩, ⟨9, 0, "W"⟩]
  let row : List TextEdit := [⟨1, 0, "é"⟩, ⟨1, 2, "X"⟩, ⟨2, 1, "Y"⟩, ⟨4, 1, "Z"⟩, ⟨9, 0, "W"⟩]
  have small : ∀ e ∈ edits, e.stop ≤ Offset.max := by decide
  refine ⟨small, ?_⟩
  obtain ⟨r, answer, same, count, all, _⟩ := editsSpliced "abcé".toList small
  have sorted : edits.mergeSort before = row :=
    (sortedAlike (by decide) (by decide : edits.Perm row)).trans (List.mergeSort_of_pairwise (by decide))
  have made : chosen "abcé".toList 0 row = [⟨1, 0, "é"⟩, ⟨1, 2, "X"⟩] := by decide +kernel
  rw [sorted, made] at same count
  refine ⟨r, answer, same.trans (by decide), count, ?_⟩
  rw [count] at all
  exact Nat.add_left_cancel all

end
end CallGuard.TextEdit
