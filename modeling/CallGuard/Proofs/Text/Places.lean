import CallGuard.Text.Template
import Mathlib.Data.List.Basic

/-! What filling the places one after the other comes to. A single pass over the template reads each place
where it stands and nothing that came from an argument. Filling number after number agrees with it as long as
no argument but the last can open, close or carry on a place, and not in general. -/
namespace CallGuard.Template
open Text (replaceFrom)

/- One pass from left to right, the arguments numbered from `first` on: a place of theirs gives way to its
argument, everything else stays. -/
inductive Filled (first : Nat) (args : List (List Char)) : (text out : List Char) → Prop
  | nil : Filled first args [] []
  | given {i : Nat} {arg text out : List Char} (number : args[i]? = some arg)
      (rest : Filled first args text out) : Filled first args (place (first + i) ++ text) (arg ++ out)
  | other {c : Char} {text out : List Char} (none : ∀ i < args.length, ¬ place (first + i) <+: c :: text)
      (rest : Filled first args text out) : Filled first args (c :: text) (c :: out)

/- An argument that opens no place, and neither closes one that is open nor carries its number on to the
end. -/
structure Inert (arg : List Char) : Prop where
  opens : '\x7b' ∉ arg
  breaks : ∃ c more, arg.dropWhile Char.isDigit = c :: more ∧ c ≠ '\x7d'

section
variable {first i j : Nat} {args : List (List Char)} {arg new text out out' : List Char} {c : Char}

/-! ### Places -/

theorem digits (i : Nat) {c : Char} (mem : c ∈ (toString i).toList) : c.isDigit := by
  rw [Nat.toString_eq_repr, Nat.toList_repr] at mem
  exact Nat.isDigit_of_mem_toDigits (by decide) (by decide) mem

theorem numberApart (same : (toString i).toList = (toString j).toList) : i = j := by
  simpa [Nat.toString_eq_ofList_toDigits] using congrArg (Nat.ofDigitChars 10 · 0) same

/- The closing brace tells where the number ends. -/
theorem numberEnds (i : Nat) (text : List Char) :
    ((toString i).toList ++ '\x7d' :: text).takeWhile Char.isDigit = (toString i).toList := by
  rw [List.takeWhile_append_of_pos fun c mem => digits i mem]
  exact List.append_nil _

theorem placeText (i : Nat) (text : List Char) :
    place i ++ text = '\x7b' :: ((toString i).toList ++ '\x7d' :: text) := by
  simp [place]

theorem placesApart (one : place i <+: text) (two : place j <+: text) : i = j := by
  obtain ⟨rest, rfl⟩ := one
  obtain ⟨rest', same⟩ := two
  rw [placeText, placeText] at same
  have same := congrArg (List.takeWhile Char.isDigit) (List.cons.inj same).2
  rw [numberEnds, numberEnds] at same
  exact (numberApart same).symm

theorem placeOpens (at' : place i <+: c :: text) : c = '\x7b' := by
  obtain ⟨rest, same⟩ := at'
  rw [placeText] at same
  exact (List.cons.inj same).1.symm

/-! ### Replacing a place -/

theorem replaceSkips (pattern new front rest : List Char) :
    replaceFrom pattern new front.length (front ++ rest) = replaceFrom pattern new 0 rest := by
  induction front with
  | nil => rfl
  | cons c front ih => exact ih

theorem replacePlace :
    replaceFrom (place i) new 0 (place i ++ text) = new ++ replaceFrom (place i) new 0 text := by
  have found : (place i).isPrefixOf (place i ++ text) :=
    List.isPrefixOf_iff_prefix.mpr (List.prefix_append ..)
  have long : (place i).length - 1 = ((toString i).toList ++ ['\x7d']).length := rfl
  have skips := replaceSkips (place i) new ((toString i).toList ++ ['\x7d']) text
  rw [List.append_assoc] at skips
  rw [placeText] at found ⊢
  rw [replaceFrom, if_pos found, long]
  exact congrArg (new ++ ·) skips

theorem replaceCopies (none : ¬ place i <+: c :: text) :
    replaceFrom (place i) new 0 (c :: text) = c :: replaceFrom (place i) new 0 text := by
  rw [replaceFrom, if_neg (mt List.isPrefixOf_iff_prefix.mp none)]

theorem replacePasses {front : List Char} (closed : '\x7b' ∉ front) :
    replaceFrom (place i) new 0 (front ++ text) = front ++ replaceFrom (place i) new 0 text := by
  induction front with
  | nil => rfl
  | cons c front ih =>
    obtain ⟨other, closed⟩ := List.ne_and_not_mem_of_not_mem_cons closed
    rw [List.cons_append, replaceCopies fun at' => other (placeOpens at').symm, ih closed]
    rfl

theorem replaceOther (apart : i ≠ j) :
    replaceFrom (place i) new 0 (place j ++ text) = place j ++ replaceFrom (place i) new 0 text := by
  have closed : '\x7b' ∉ (toString j).toList ++ ['\x7d'] := by
    intro mem
    rcases List.mem_append.mp mem with digit | brace
    · exact absurd (digits j digit) (by decide)
    · exact absurd brace (by decide)
  have none : ¬ place i <+: '\x7b' :: ((toString j).toList ++ ['\x7d'] ++ text) :=
    fun at' => apart (placesApart at' (List.prefix_append (place j) text))
  exact (replaceCopies none).trans (congrArg ('\x7b' :: ·) (replacePasses closed))

/- With an inert argument put in, no number comes to be closed that was not closed before. -/
theorem closedBefore (inert : Inert new) {number : List Char} (digit : ∀ c ∈ number, c.isDigit)
    (closed : number ++ ['\x7d'] <+: replaceFrom (place i) new 0 text) : number ++ ['\x7d'] <+: text := by
  induction text generalizing number with
  | nil => exact closed
  | cons c text ih =>
    by_cases at' : place i <+: c :: text
    · -- The closing brace would be what follows the leading digits of the argument.
      obtain ⟨rest, same⟩ := at'
      obtain ⟨d, tail, ends, brace⟩ := inert.breaks
      obtain ⟨more, whole⟩ := closed
      rw [← same, replacePlace, List.append_assoc] at whole
      have behind (rest : List Char) : (new ++ rest).dropWhile Char.isDigit = d :: (tail ++ rest) := by
        rw [List.dropWhile_append, ends]
        rfl
      have alike := congrArg (List.dropWhile Char.isDigit) whole
      rw [List.dropWhile_append_of_pos digit, behind] at alike
      exact absurd (List.cons.inj alike).1.symm brace
    · rw [replaceCopies at'] at closed
      cases number with
      | nil =>
        obtain ⟨same, -⟩ := List.cons_prefix_cons.mp closed
        exact List.cons_prefix_cons.mpr ⟨same, List.nil_prefix⟩
      | cons d number =>
        obtain ⟨same, closed⟩ := List.cons_prefix_cons.mp closed
        exact List.cons_prefix_cons.mpr ⟨same, ih (fun c mem => digit c (.tail _ mem)) closed⟩

theorem placeBefore (inert : Inert new) (at' : place j <+: c :: replaceFrom (place i) new 0 text) :
    place j <+: c :: text := by
  have closed := List.cons_prefix_cons.mp at'
  exact List.cons_prefix_cons.mpr ⟨closed.1, closedBefore inert (fun _ mem => digits j mem) closed.2⟩

/-! ### One pass -/

theorem filledGiven (number : args[i]? = some arg)
    (filled : Filled first args (place (first + i) ++ text) out) :
    ∃ more, out = arg ++ more ∧ Filled first args text more := by
  generalize is : place (first + i) ++ text = whole at filled
  cases filled with
  | nil => simp [place] at is
  | @given j _ text' more number' rest =>
    have same : first + i = first + j := placesApart ⟨text, is⟩ ⟨text', rfl⟩
    obtain rfl : i = j := by omega
    obtain rfl := List.append_cancel_left is
    cases number.symm.trans number'
    exact ⟨more, rfl, rest⟩
  | other none =>
    exact absurd ⟨text, is⟩ (none i (List.getElem?_eq_some_iff.mp number).1)

theorem filledOther (none : ∀ i < args.length, ¬ place (first + i) <+: c :: text)
    (filled : Filled first args (c :: text) out) :
    ∃ more, out = c :: more ∧ Filled first args text more := by
  generalize is : c :: text = whole at filled
  cases filled with
  | nil => cases is
  | @given i _ text' more number rest =>
    exact absurd ⟨text', is.symm⟩ (none i (List.getElem?_eq_some_iff.mp number).1)
  | other _ rest =>
    cases is
    exact ⟨_, rfl, rest⟩

theorem filledSome (first : Nat) (args : List (List Char)) (text : List Char) :
    ∃ out, Filled first args text out := by
  induction long : text.length using Nat.strongRecOn generalizing text with | _ n ih
  cases text with
  | nil => exact ⟨[], .nil⟩
  | cons c text =>
    by_cases found : ∃ i < args.length, place (first + i) <+: c :: text
    · obtain ⟨i, within, rest, same⟩ := found
      have shorter : rest.length < n := by
        rw [← long, ← same, placeText, List.length_cons, List.length_append, List.length_cons]
        omega
      obtain ⟨out, filled⟩ := ih rest.length shorter rest rfl
      rw [← same]
      exact ⟨_, .given (List.getElem?_eq_getElem within) filled⟩
    · push Not at found
      obtain ⟨out, filled⟩ := ih text.length (by rw [← long]; exact Nat.lt_succ_self _) text rfl
      exact ⟨c :: out, .other found filled⟩

/- A text is filled in one way. -/
theorem filledUnique (first : Nat) (args : List (List Char)) (text : List Char) :
    ∃! out, Filled first args text out := by
  obtain ⟨out, one⟩ := filledSome first args text
  refine ⟨out, one, fun out' two => ?_⟩
  induction one generalizing out' with
  | nil => cases two with | nil => rfl
  | given number _ ih =>
    obtain ⟨_, rfl, rest⟩ := filledGiven number two
    rw [ih _ rest]
  | other none _ ih =>
    obtain ⟨_, rfl, rest⟩ := filledOther none two
    rw [ih _ rest]

/-! ### Number after number -/

theorem filledPast {front : List Char} (closed : args ≠ [] → '\x7b' ∉ front)
    (filled : Filled first args text out) : Filled first args (front ++ text) (front ++ out) := by
  induction front with
  | nil => exact filled
  | cons c front ih =>
    refine .other (fun i within at' => ?_) (ih fun some => List.not_mem_of_not_mem_cons (closed some))
    exact closed (List.ne_nil_of_length_pos (Nat.zero_lt_of_lt within)) (placeOpens at' ▸ .head _)

theorem filledNone (filled : Filled first [] text out) : out = text := by
  induction filled with
  | nil => rfl
  | given number => cases number
  | other _ _ ih => rw [ih]

/- What is put in for the first number stays out of the pass for the others, so they may as well come
afterwards. -/
theorem filledFirst (inert : args ≠ [] → Inert arg) (filled : Filled first (arg :: args) text out) :
    Filled (first + 1) args (replaceFrom (place first) arg 0 text) out := by
  induction filled with
  | nil => exact .nil
  | @given i new text out number _ ih =>
    cases i with
    | zero =>
      cases number
      have placed : replaceFrom (place first) arg 0 (place (first + 0) ++ text) = _ := replacePlace
      rw [placed]
      exact filledPast (fun some => (inert some).opens) ih
    | succ i =>
      have later : first + (i + 1) = first + 1 + i := by omega
      rw [later, replaceOther (by omega)]
      exact .given number ih
  | @other c text out none _ ih =>
    have copied : replaceFrom (place first) arg 0 (c :: text) = _ :=
      replaceCopies (none 0 (Nat.zero_lt_succ _))
    rw [copied]
    refine .other (fun i within at' => none (i + 1) (Nat.succ_lt_succ within) ?_) ih
    have later : first + (i + 1) = first + 1 + i := by omega
    exact later ▸ placeBefore (inert (List.ne_nil_of_length_pos (Nat.zero_lt_of_lt within))) at'

/- Where no argument but the last can make up a place, filling number after number is one pass. -/
theorem fillsAtOnce (first : Nat) (args : List (List Char)) (text : List Char)
    (inert : ∀ arg ∈ args.dropLast, Inert arg) : Filled first args text (fillFrom first args text) := by
  obtain ⟨out, filled⟩ := filledSome first args text
  suffices same : fillFrom first args text = out from same ▸ filled
  induction args generalizing first text with
  | nil => exact (filledNone filled).symm
  | cons arg args ih =>
    have head (some : args ≠ []) : Inert arg := inert arg (by simp [List.dropLast_cons_of_ne_nil some])
    have tail (new : List Char) (mem : new ∈ args.dropLast) : Inert new := by
      refine inert new ?_
      rw [List.dropLast_cons_of_ne_nil (by rintro rfl; cases mem)]
      exact .tail _ mem
    exact ih (first + 1) _ tail (filledFirst head filled)

/- Else a text that was put in is read again: the place of a later argument in an earlier one, and a place
that is only joined up from the template and an argument. -/
example : fillFrom 0 [place 1, ['x']] (place 0) = ['x'] ∧
    Filled 0 [place 1, ['x']] (place (0 + 0) ++ []) (place 1 ++ []) :=
  ⟨by decide +kernel, .given rfl .nil⟩

example : fillFrom 0 [['1'], ['x']] ('\x7b' :: place 0 ++ ['\x7d']) = ['x'] := by decide +kernel

end

end CallGuard.Template
